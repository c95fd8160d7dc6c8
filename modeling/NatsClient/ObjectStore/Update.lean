import NatsClient.ObjectStore.Clients
import NatsClient.ObjectStore.Get

/-!
# Updating an entry

Model of `update` (`objectstore.ts`) as one call, with its errors; `alone_reading` says that it is
what the stages of an update do when no other call comes between them.

An update lays the new fields over the entry that was read. `toServerObjectStoreMeta` lists the
description, the options and the metadata also where the caller gave none, so these are lost unless
they were given again (`updated_iff`): a link becomes an object without data, and an object forgets
its chunk size.
-/

set_option autoImplicit false

namespace NatsClient.ObjectStore

open Wire

/-- `update(name, meta)`: the bucket behind it, or what it rejects with. -/
def Bucket.update (b : Bucket) (name : String) (change : ObjectStoreUpdate) :
    Except String Bucket :=
  match b.rawInfo name with
  | .error e => .error e
  | .ok none => .error "object not found"
  | .ok (some info) =>
      let target := change.name.getD info.name
      if info.isDeleted then .error "cannot update meta for a deleted object"
      else if target = "" then .error "name cannot be empty"
      else
        match if name ≠ target then b.rawInfo target else .ok none with
        | .error e => .error e
        | .ok i =>
            if i.any fun i => !i.isDeleted then .error "an object already exists with that name"
            else
              match b.metaSubject target with
              | none => .error "InvalidCharacterError"
              | some metaSubj =>
                  let stored := b.store metaSubj (.json (info.assign target change)) false
                  -- if the name changed, delete the old meta
                  if name ≠ target then
                    match b.metaSubject name with
                    | none => .error "InvalidCharacterError"
                    | some old => .ok (stored.purge old)
                  else .ok stored

/-- An update goes through its stages, and no other call comes between them. -/
def UpdateStage.alone (name : String) (change : ObjectStoreUpdate) :
    Nat → Bucket × UpdateStage → Bucket × UpdateStage
  | 0, s => s
  | n + 1, (b, stage) =>
      match stage.advance b name change with
      | some s => alone name change n s
      | none => (b, stage)

/-- Two results of `get` have the same content: the same bytes, or they go on with the same
object. -/
inductive SameContent : GetResult → GetResult → Prop
  | null : SameContent .null .null
  | rejected (error : String) : SameContent (.rejected error) (.rejected error)
  | follow (bucket name : String) : SameContent (.follow bucket name) (.follow bucket name)
  | object (info info' : ServerObjectInfo) (data : ReadableStream) :
      SameContent (.object info data) (.object info' data)

/-- An entry differs from another one in nothing but what was supplied. As `ObjectInfoImpl` reads
them, no description is the empty one and no metadata is the empty record. -/
structure OnlySupplied (change : ObjectStoreUpdate) (old new : ServerObjectInfo) : Prop where
  name : new.name = change.name.getD old.name
  bucket : new.bucket = old.bucket
  nuid : new.nuid = old.nuid
  size : new.size = old.size
  chunks : new.chunks = old.chunks
  digest : new.digest = old.digest
  deleted : new.deleted = old.deleted
  mtime : new.mtime = old.mtime
  description : new.description.getD "" = (change.description <|> old.description).getD ""
  headers : new.headers = (change.headers <|> old.headers)
  options : new.options = (change.options <|> old.options)
  metadata : new.metadata.getD [] = (change.metadata <|> old.metadata).getD []

/-- An update that changes what it is given: `info` was read from `b`, and `b'` is the bucket behind
it. The content is another one only where another link was given. -/
structure Updated (sha256 : StreamingHash) (b : Bucket) (name : String) (change : ObjectStoreUpdate)
    (info : ServerObjectInfo) (b' : Bucket) : Prop where
  entry : ∃ new, b'.latest (change.name.getD info.name) = some new ∧ OnlySupplied change info new
  renamed : change.name.getD info.name ≠ name → b'.latest name = none
  content : (∀ options, change.options = some options → options.link = info.link) →
    SameContent (get sha256 b' (change.name.getD info.name)) (get sha256 b name)

/-- What the entry has is given again: the description, the options and the metadata. -/
structure Repeats (change : ObjectStoreUpdate) (info : ServerObjectInfo) : Prop where
  description : change.description = none → info.description.getD "" = ""
  options : change.options = none → info.options = none
  metadata : change.metadata = none → info.metadata.getD [] = []

section

variable {sha256 : StreamingHash} {b b' : Bucket} {name : String} {change : ObjectStoreUpdate}
  {info : ServerObjectInfo}

/-- **The fields.** -/
theorem onlySupplied_assign_iff :
    OnlySupplied change info (info.assign (change.name.getD info.name) change) ↔
      Repeats change info := by
  constructor
  · intro h
    have hdescription := h.description
    have hoptions := h.options
    have hmetadata := h.metadata
    constructor
    · intro hnone
      simp only [ServerObjectInfo.assign, hnone] at hdescription
      exact hdescription.symm
    · intro hnone
      simp only [ServerObjectInfo.assign, hnone] at hoptions
      exact hoptions.symm
    · intro hnone
      simp only [ServerObjectInfo.assign, hnone] at hmetadata
      exact hmetadata.symm
  · intro h
    refine ⟨rfl, rfl, rfl, rfl, rfl, rfl, rfl, rfl, ?_, rfl, ?_, ?_⟩
    · cases hd : change.description with
      | some d => simp only [ServerObjectInfo.assign, hd]; rfl
      | none =>
          simp only [ServerObjectInfo.assign, hd]
          exact (h.description hd).symm
    · cases ho : change.options with
      | some options => simp only [ServerObjectInfo.assign, ho]; rfl
      | none =>
          simp only [ServerObjectInfo.assign, ho]
          exact (h.options ho).symm
    · cases hm : change.metadata with
      | some metadata => simp only [ServerObjectInfo.assign, hm]; rfl
      | none =>
          simp only [ServerObjectInfo.assign, hm]
          exact (h.metadata hm).symm

/-- What an update that succeeds does. -/
theorem update_eq_ok (hinfo : b.rawInfo name = .ok (some info))
    (h : b.update name change = .ok b') :
    info.isDeleted = false ∧ change.name.getD info.name ≠ "" ∧
      ∃ subject, b.metaSubject (change.name.getD info.name) = some subject ∧
        ((change.name.getD info.name = name ∧
            b' = b.store subject (.json (info.assign (change.name.getD info.name) change)) false) ∨
          change.name.getD info.name ≠ name ∧ ∃ old, b.metaSubject name = some old ∧
            b' =
            (b.store subject (.json (info.assign (change.name.getD info.name) change)) false).purge
              old) := by
  simp only [Bucket.update, hinfo] at h
  split at h
  · cases h
  · rename_i hdeleted
    split at h
    · cases h
    · rename_i hempty
      refine ⟨Bool.eq_false_iff.2 hdeleted, hempty, ?_⟩
      split at h
      · cases h
      · split at h
        · cases h
        · split at h
          · cases h
          · rename_i subject hsubject
            refine ⟨subject, hsubject, ?_⟩
            split at h
            · rename_i hne
              split at h
              · cases h
              · rename_i old hold
                exact Or.inr ⟨fun heq => hne heq.symm, old, hold, (Except.ok.inj h).symm⟩
            · rename_i hsame
              exact Or.inl ⟨(not_not.1 hsame).symm, (Except.ok.inj h).symm⟩

/-! ## The stages of an update -/

theorem alone_succ {stage : UpdateStage} {s : Bucket × UpdateStage} (n : Nat)
    (h : stage.advance b name change = some s) :
    UpdateStage.alone name change (n + 1) (b, stage) = UpdateStage.alone name change n s := by
  rw [UpdateStage.alone, h]

/-- A finished update stays where it is. -/
theorem alone_finished (n : Nat) (b : Bucket) :
    UpdateStage.alone name change n (b, .finished) = (b, .finished) := by
  cases n <;> rfl

/-- The publish, and the purge behind it. -/
theorem alone_publishing (n : Nat) {subject old : String} (hold : b.metaSubject name = some old)
    (hsubject : b.metaSubject info.name = some subject) :
    UpdateStage.alone name change (n + 2) (b, .publishing info) =
      (if name ≠ info.name then (b.store subject (.json info) false).purge old
        else b.store subject (.json info) false, .finished) := by
  by_cases hne : name ≠ info.name
  · have hold' : (b.store subject (.json info) false).metaSubject name = some old := hold
    simp only [UpdateStage.alone, UpdateStage.advance, hsubject, if_pos hne, hold', alone_finished]
  · simp only [UpdateStage.alone, UpdateStage.advance, hsubject, if_neg hne]

/-- An update that found its entry, and may take its new name. -/
theorem update_published {subject old : String} (hinfo : b.rawInfo name = .ok (some info))
    (hdeleted : ¬ info.isDeleted) (hempty : change.name.getD info.name ≠ "")
    (hfree : name ≠ change.name.getD info.name →
      ∃ i, b.rawInfo (change.name.getD info.name) = .ok i ∧ (i.any fun i => !i.isDeleted) = false)
    (hold : b.metaSubject name = some old)
    (hsubject : b.metaSubject (change.name.getD info.name) = some subject) :
    b.update name change =
      .ok (if name ≠ change.name.getD info.name then
          (b.store subject (.json (info.assign (change.name.getD info.name) change))
            false).purge old
        else b.store subject (.json (info.assign (change.name.getD info.name) change)) false) := by
  by_cases hne : name ≠ change.name.getD info.name
  · obtain ⟨i, htarget, hi⟩ := hfree hne
    simp only [Bucket.update, hinfo, if_neg hdeleted, if_neg hempty, if_pos hne, htarget, hi,
      Bool.false_eq_true, if_false, hsubject, hold]
  · simp only [Bucket.update, hinfo, if_neg hdeleted, if_neg hempty, if_neg hne, Option.any_none,
      Bool.false_eq_true, if_false, hsubject]

/-- **The stages**, one after the other, do what the call does. -/
theorem alone_reading : UpdateStage.alone name change 4 (b, .reading) =
    ((b.update name change).toOption.getD b, .finished) := by
  cases hraw : b.rawInfo name with
  | error e =>
      have hstep : UpdateStage.advance b name change .reading = some (b, .finished) := by
        simp only [UpdateStage.advance, hraw]
      rw [alone_succ 3 hstep, alone_finished, Bucket.update, hraw]
      rfl
  | ok r =>
      obtain ⟨-, old, hold⟩ := Bucket.metaSubject_of_rawInfo hraw
      cases r with
      | none =>
          have hstep : UpdateStage.advance b name change .reading = some (b, .finished) := by
            simp only [UpdateStage.advance, hraw]
          rw [alone_succ 3 hstep, alone_finished, Bucket.update, hraw]
          rfl
      | some info =>
          by_cases hrefused : info.isDeleted = true ∨ change.name.getD info.name = ""
          · have hstep : UpdateStage.advance b name change .reading = some (b, .finished) := by
              simp only [UpdateStage.advance, hraw, if_pos hrefused]
            have hupdate : (b.update name change).toOption = none := by
              simp only [Bucket.update, hraw]
              rcases hrefused with hdeleted | hempty
              · rw [if_pos hdeleted]
                rfl
              · rw [if_pos hempty]
                split <;> rfl
            rw [alone_succ 3 hstep, alone_finished, hupdate]
            rfl
          obtain ⟨hdeleted, hempty⟩ := not_or.1 hrefused
          by_cases hne : name ≠ change.name.getD info.name
          · -- the new name is read too
            have hstep : UpdateStage.advance b name change .reading = some
                (b, .targeting info) := by
              simp only [UpdateStage.advance, hraw, if_neg hrefused, if_pos hne]
            rw [alone_succ 3 hstep]
            cases htarget : b.rawInfo (change.name.getD info.name) with
            | error e =>
                have hnext : UpdateStage.advance b name change (.targeting info) = some
                    (b, .finished) := by
                  simp only [UpdateStage.advance, htarget]
                rw [alone_succ 2 hnext, alone_finished]
                simp only [Bucket.update, hraw, if_neg hdeleted, if_neg hempty, if_pos hne, htarget]
                rfl
            | ok i =>
                obtain ⟨-, subject, hsubject⟩ := Bucket.metaSubject_of_rawInfo htarget
                cases hi : i.any fun i => !i.isDeleted with
                | true =>
                    have hnext : UpdateStage.advance b name change (.targeting info) =
                        some (b, .finished) := by
                      cases i with
                      | none => cases hi
                      | some i =>
                          have hlive : ¬ i.isDeleted = true := by simpa using hi
                          simp only [UpdateStage.advance, htarget, if_neg hlive]
                    rw [alone_succ 2 hnext, alone_finished]
                    simp only [Bucket.update, hraw, if_neg hdeleted, if_neg hempty,
                      if_pos hne, htarget, hi, if_true]
                    rfl
                | false =>
                    have hnext : UpdateStage.advance b name change (.targeting info) = some
                        (b, .publishing (info.assign (change.name.getD info.name) change)) := by
                      cases i with
                      | none => simp only [UpdateStage.advance, htarget]
                      | some i =>
                          have hgone : i.isDeleted = true := by simpa using hi
                          simp only [UpdateStage.advance, htarget, if_pos hgone]
                    rw [alone_succ 2 hnext, update_published hraw hdeleted hempty
                      (fun _ => ⟨i, htarget, hi⟩) hold hsubject]
                    exact alone_publishing 0 hold hsubject
          · have hsame : name = change.name.getD info.name := not_not.1 hne
            have hstep : UpdateStage.advance b name change .reading = some
                (b, .publishing (info.assign (change.name.getD info.name) change)) := by
              simp only [UpdateStage.advance, hraw, if_neg hrefused, if_neg hne]
            have hsubject : b.metaSubject (change.name.getD info.name) = some old := hsame ▸ hold
            rw [alone_succ 3 hstep,
              update_published hraw hdeleted hempty (fun h => absurd h hne) hold hsubject]
            exact alone_publishing 1 hold hsubject

/-! ## What an update leaves behind -/

/-- The entries behind an update. -/
theorem latest_update (hinfo : b.rawInfo name = .ok (some info)) (h : b.update name change = .ok b')
    (m : String) : b'.latest m =
      if m = change.name.getD info.name then some (info.assign (change.name.getD info.name) change)
      else if m = name then none else b.latest m := by
  obtain ⟨-, -, subject, hsubject, ⟨hsame, rfl⟩ | ⟨hne, old, hold, rfl⟩⟩ := update_eq_ok hinfo h
  · rw [Bucket.latest_store hsubject, hsame]
    split
    · rfl
    · rfl
  · have hold' : (b.store subject (.json (info.assign (change.name.getD info.name) change))
        false).metaSubject name = some old := hold
    rw [Bucket.latest_purge hold', Bucket.latest_store hsubject]
    by_cases hm : m = name
    · rw [if_pos hm, if_neg (hm ▸ hne.symm), if_pos hm]
    · rw [if_neg hm, if_neg hm]

/-- The chunks stay. -/
theorem chunks_update (hinfo : b.rawInfo name = .ok (some info)) (h : b.update name change = .ok b')
    (id : String) : b'.chunks id = b.chunks id := by
  obtain ⟨-, -, subject, hsubject, ⟨-, rfl⟩ | ⟨-, old, hold, rfl⟩⟩ := update_eq_ok hinfo h
  · exact Bucket.chunks_store_of_ne (Bucket.chunkSubject_ne_metaSubject hsubject)
  · refine Eq.trans (Bucket.chunks_purge_of_ne ?_) ?_
    · exact Bucket.chunkSubject_ne_metaSubject (b := b) hold
    · exact Bucket.chunks_store_of_ne (Bucket.chunkSubject_ne_metaSubject hsubject)

/-- `get` goes by these fields of an entry. -/
theorem sameContent_get {n : String} {i i' : ServerObjectInfo}
    (hraw : b.rawInfo name = .ok (some i)) (hraw' : b'.rawInfo n = .ok (some i'))
    (hdeleted : i'.isDeleted = i.isDeleted) (hlink : i'.link = i.link)
    (hdigest : i'.digest = i.digest) (hsize : i'.size = i.size) (hnuid : i'.nuidText = i.nuidText)
    (hchunks : ∀ id, b'.chunks id = b.chunks id) :
    SameContent (get sha256 b' n) (get sha256 b name) := by
  -- what is read are the chunks of the nuid, and all that is pending
  have hconsume : b'.consume i.nuidText = b.consume i.nuidText := congrArg withPending (hchunks _)
  simp only [get, hraw, hraw', hdeleted, hlink, hdigest, hsize, hnuid, hconsume]
  cases i.isDeleted with
  | true => exact .null
  | false =>
      cases i.link with
      | some link =>
          simp only [Bool.false_eq_true, if_false]
          split
          · exact .rejected _
          · exact .follow _ _
      | none =>
          cases i.digest with
          | none => exact .rejected _
          | some infoDigest =>
              cases hdigestText : digestText infoDigest with
              | none =>
                  simp only [Bool.false_eq_true, if_false, hdigestText]
                  exact .rejected _
              | some text =>
                  cases hparse : parseSha256 text with
                  | error e =>
                      simp only [Bool.false_eq_true, if_false, hdigestText, hparse]
                      exact .rejected _
                  | ok digest =>
                      cases digest with
                      | none =>
                          simp only [Bool.false_eq_true, if_false, hdigestText, hparse]
                          exact .rejected _
                      | some digest =>
                          simp only [Bool.false_eq_true, if_false, hdigestText, hparse]
                          split
                          · exact .object ..
                          · exact .object ..

/-- **An update changes what it is given** exactly if what else the entry has is given again. -/
theorem updated_iff (sha256 : StreamingHash) (hinfo : b.rawInfo name = .ok (some info))
    (h : b.update name change = .ok b') :
    Updated sha256 b name change info b' ↔ Repeats change info := by
  have hlatest := latest_update hinfo h
  have hentry : b'.latest (change.name.getD info.name) =
      some (info.assign (change.name.getD info.name) change) := by
    rw [hlatest, if_pos rfl]
  constructor
  · intro hupdated
    obtain ⟨new, hnew, honly⟩ := hupdated.entry
    rw [hentry, Option.some.injEq] at hnew
    exact onlySupplied_assign_iff.1 (hnew ▸ honly)
  · intro hrepeats
    refine ⟨⟨_, hentry, onlySupplied_assign_iff.2 hrepeats⟩, ?_, ?_⟩
    · intro hne
      rw [hlatest, if_neg hne.symm, if_pos rfl]
    · intro hlink
      obtain ⟨-, hempty, -⟩ := update_eq_ok hinfo h
      obtain ⟨seq, hraw'⟩ := rawInfo_of_latest hempty hentry
      refine sameContent_get hinfo hraw' rfl ?_ rfl rfl rfl (chunks_update hinfo h)
      show change.options.bind (·.link) = info.options.bind (·.link)
      cases hoptions : change.options with
      | none =>
          -- no options were given, so there were none
          rw [hrepeats.options hoptions]
      | some options => exact hlink options hoptions

end

/-- The bucket that holds the object of `putAbc`. -/
def bucketAbc : Bucket := (putInto hashOfAbc ⟨"b", [], 0⟩ putAbc).1

/-- A new name, and the chunk size again. -/
def renameAbc : ObjectStoreUpdate := ⟨some "c", none, none, some ⟨none, some 2⟩, none⟩

theorem updated_renameAbc :
    ∃ b', bucketAbc.update "a" renameAbc = .ok b' ∧
      Updated hashOfAbc bucketAbc "a" renameAbc (putAbc.stored hashOfAbc ⟨"b", [], 0⟩ 3) b' := by
  have hends : (bucketAbc.update "a" renameAbc).toOption.isSome = true := by decide +kernel
  cases hb : bucketAbc.update "a" renameAbc with
  | error e =>
      rw [hb] at hends
      cases hends
  | ok b' =>
      have hrepeats : Repeats renameAbc (putAbc.stored hashOfAbc ⟨"b", [], 0⟩ 3) := by
        constructor
        · intro _
          rfl
        · intro hnone
          cases hnone
        · intro _
          rfl
      exact ⟨b', rfl, (updated_iff hashOfAbc (by decide +kernel) hb).2 hrepeats⟩

/-- Headers, and nothing else. -/
def headersAbc : ObjectStoreUpdate := ⟨none, none, some [("k", ["v"])], none, none⟩

/-- The chunk size of the object is lost. -/
theorem not_updated : ¬ ∀ (sha256 : StreamingHash) (b b' : Bucket) (name : String)
    (change : ObjectStoreUpdate) (info : ServerObjectInfo), b.rawInfo name = .ok (some info) →
      b.update name change = .ok b' → Updated sha256 b name change info b' := by
  intro hall
  have hinfo : bucketAbc.rawInfo "a" = .ok (some (putAbc.stored hashOfAbc ⟨"b", [], 0⟩ 3)) := by
    decide +kernel
  have hends : (bucketAbc.update "a" headersAbc).toOption.isSome = true := by decide +kernel
  cases hb : bucketAbc.update "a" headersAbc with
  | error e =>
      rw [hb] at hends
      cases hends
  | ok b' =>
      obtain ⟨new, hnew, honly⟩ := (hall hashOfAbc _ _ _ _ _ hinfo hb).entry
      rw [latest_update hinfo hb, if_pos rfl, Option.some.injEq] at hnew
      have hrepeats := onlySupplied_assign_iff.1 (hnew ▸ honly)
      have hoptions := hrepeats.options rfl
      revert hoptions
      decide +kernel

end NatsClient.ObjectStore
