import NatsClient.ObjectStore.Digest

/-!
# The stream behind a bucket

The records of `objectstore.ts` (`ServerObjectInfo` with the metadata of an object) and the stream a
bucket lives in. The server keeps messages in the order in which they were stored; the object store
publishes to it (with or without the roll-up of the subject), purges a subject, reads the last
message of a subject and consumes the messages of a subject. A JSON text is kept as the record it is
read back to.

Chunks are stored under the subject of their nuid (`chunkSubject`), the entries of an object under
the subject of its name (`metaSubject`), and none of these subjects holds a wildcard.
-/

set_option autoImplicit false

namespace NatsClient.ObjectStore

open Wire

/-- `ObjectStoreLink`. -/
structure ObjectStoreLink where
  bucket : String
  name : Option String
deriving DecidableEq, Repr

/-- `ObjectStoreMetaOptions`. -/
structure ObjectStoreMetaOptions where
  link : Option ObjectStoreLink
  maxChunkSize : Option Nat
deriving DecidableEq, Repr

/-- `ObjectStoreMeta`: what a caller says about an object. -/
structure ObjectStoreMeta where
  name : String
  description : Option String
  headers : Option (List (String × List String))
  options : Option ObjectStoreMetaOptions
  metadata : Option (List (String × String))
deriving DecidableEq, Repr

/-- `ServerObjectInfo`: an entry of the bucket. `none` is an absent field. -/
structure ServerObjectInfo where
  name : String
  description : Option String
  headers : Option (List (String × List String))
  options : Option ObjectStoreMetaOptions
  metadata : Option (List (String × String))
  bucket : String
  nuid : Option String
  size : Option Nat
  chunks : Option Nat
  digest : Option String
  deleted : Option Bool
  mtime : Option String
  revision : Option Nat
deriving DecidableEq, Repr

/-- `info.options && info.options.link`, and `isLink()`. -/
def ServerObjectInfo.link (info : ServerObjectInfo) : Option ObjectStoreLink :=
  info.options.bind (·.link)

/-- `info.deleted` as a condition. -/
def ServerObjectInfo.isDeleted (info : ServerObjectInfo) : Bool := info.deleted.getD false

/-- The nuid as it stands in the text of a subject. -/
def ServerObjectInfo.nuidText (info : ServerObjectInfo) : String := info.nuid.getD "undefined"

/-- The data of a message: the bytes of a chunk, or an entry. -/
inductive Payload where
  | bytes (data : Bytes)
  | json (info : ServerObjectInfo)
deriving DecidableEq, Repr

/-- A stored message. -/
structure StreamMsg where
  seq : Nat
  subject : String
  data : Payload
deriving DecidableEq, Repr

/-- A bucket: its name, and the messages of its stream in the order of their sequence numbers. -/
structure Bucket where
  name : String
  msgs : List StreamMsg
  lastSeq : Nat
deriving DecidableEq, Repr

namespace Bucket

/-- `_chunkSubject(id)`. -/
def chunkSubject (b : Bucket) (id : String) : String := "$O." ++ b.name ++ ".C." ++ id

/-- `_metaSubject(n)`: the encoding throws for a name with a code unit that does not fit a byte. -/
def metaSubject (b : Bucket) (n : String) : Option String :=
  (base64UrlPaddedText n).map fun encoded => "$O." ++ b.name ++ ".M." ++ encoded

/-- The messages of a subject. -/
def on (b : Bucket) (subject : String) : List StreamMsg := b.msgs.filter (·.subject = subject)

/-- What the server does with a published message: with the roll-up header, the earlier messages of
the subject go. -/
def store (b : Bucket) (subject : String) (data : Payload) (rollup : Bool) : Bucket where
  name := b.name
  msgs := (if rollup then b.msgs.filter (·.subject ≠ subject) else b.msgs)
    ++ [⟨b.lastSeq + 1, subject, data⟩]
  lastSeq := b.lastSeq + 1

/-- `streams.purge(stream, { filter })`. -/
def purge (b : Bucket) (filter : String) : Bucket where
  name := b.name
  msgs := b.msgs.filter (·.subject ≠ filter)
  lastSeq := b.lastSeq

/-- `streams.getMessage(stream, { last_by_subj })`. -/
def last? (b : Bucket) (subject : String) : Option StreamMsg := (b.on subject).getLast?

/-- The chunks stored for a nuid, in order. -/
def chunks (b : Bucket) (id : String) : List Bytes :=
  (b.on (b.chunkSubject id)).filterMap fun m =>
    match m.data with
    | .bytes data => some data
    | .json _ => none

/-- `rawInfo(name)`, `none` being `null`. -/
def rawInfo (b : Bucket) (name : String) : Except String (Option ServerObjectInfo) :=
  if name = "" then .error "name cannot be empty"
  else
    match b.metaSubject name with
    | none => .error "InvalidCharacterError"
    | some subject =>
        match b.last? subject with
        | none => .ok none
        | some m =>
            match m.data with
            | .json info => .ok (some { info with revision := some m.seq })
            | .bytes _ => .error "SyntaxError"

/-- The last entry of a name, as it is stored. -/
def latest (b : Bucket) (name : String) : Option ServerObjectInfo :=
  match (b.metaSubject name).bind b.last? with
  | some ⟨_, _, .json info⟩ => some info
  | _ => none

@[simp] theorem name_store (b : Bucket) (subject : String) (data : Payload) (rollup : Bool) :
    (b.store subject data rollup).name = b.name := rfl

@[simp] theorem name_purge (b : Bucket) (filter : String) : (b.purge filter).name = b.name := rfl

@[simp] theorem chunkSubject_store (b : Bucket) (subject id : String) (data : Payload)
    (rollup : Bool) :
    (b.store subject data rollup).chunkSubject id = b.chunkSubject id := rfl

@[simp] theorem chunkSubject_purge (b : Bucket) (filter id : String) :
    (b.purge filter).chunkSubject id = b.chunkSubject id := rfl

@[simp] theorem metaSubject_store (b : Bucket) (subject n : String) (data : Payload)
    (rollup : Bool) :
    (b.store subject data rollup).metaSubject n = b.metaSubject n := rfl

@[simp] theorem metaSubject_purge (b : Bucket) (filter n : String) :
    (b.purge filter).metaSubject n = b.metaSubject n := rfl

section

variable {b : Bucket} {subject other id id' n n' filter : String} {data : Payload} {rollup : Bool}

theorem chunkSubject_inj (h : b.chunkSubject id = b.chunkSubject id') : id = id' := by
  have hlist := congrArg String.toList h
  simp only [chunkSubject, String.toList_append] at hlist
  exact String.toList_inj.1 (List.append_cancel_left hlist)

/-- The subjects of chunks and of entries are apart. -/
theorem chunkSubject_ne_metaSubject (hmeta : b.metaSubject n = some subject) :
    b.chunkSubject id ≠ subject := by
  intro h
  rw [metaSubject, Option.map_eq_some_iff] at hmeta
  obtain ⟨encoded, _, rfl⟩ := hmeta
  have hlist := congrArg String.toList h
  simp only [chunkSubject, String.toList_append, List.append_assoc] at hlist
  have hkind := List.append_cancel_left (List.append_cancel_left hlist)
  cases hkind

/-- Names have subjects of their own. -/
theorem metaSubject_inj (h : b.metaSubject n = some subject)
    (h' : b.metaSubject n' = some subject) : n = n' := by
  rw [metaSubject, Option.map_eq_some_iff] at h h'
  obtain ⟨encoded, hencoded, rfl⟩ := h
  obtain ⟨encoded', hencoded', heq⟩ := h'
  have hlist := congrArg String.toList heq
  simp only [String.toList_append] at hlist
  have hsame := String.toList_inj.1 (List.append_cancel_left hlist)
  subst hsame
  exact base64UrlPaddedText_inj hencoded hencoded'

/-- The messages of the subject published to. -/
theorem on_store_self :
    (b.store subject data rollup).on subject =
      (if rollup then [] else b.on subject) ++ [⟨b.lastSeq + 1, subject, data⟩] := by
  cases rollup with
  | false => simp [on, store]
  | true => simp [on, store, List.filter_filter]

/-- The messages of another subject are as they were. -/
theorem on_store_of_ne (hne : other ≠ subject) :
    (b.store subject data rollup).on other = b.on other := by
  cases rollup with
  | false => simp [on, store, Ne.symm hne]
  | true =>
      simp only [on, store, ↓reduceIte, List.filter_append, List.filter_filter]
      rw [List.filter_cons_of_neg (by simpa using Ne.symm hne), List.filter_nil, List.append_nil]
      apply List.filter_congr
      intro m _
      by_cases hm : m.subject = other
      · simp [hm, hne]
      · simp [hm]

theorem on_purge_self : (b.purge filter).on filter = [] := by
  simp [on, purge, List.filter_filter]

theorem on_purge_of_ne (hne : other ≠ filter) : (b.purge filter).on other = b.on other := by
  simp only [on, purge, List.filter_filter]
  apply List.filter_congr
  intro m _
  by_cases hm : m.subject = other
  · simp [hm, hne]
  · simp [hm]

/-- The entry just published is the last one. -/
theorem last?_store_self :
    (b.store subject data rollup).last? subject = some ⟨b.lastSeq + 1, subject, data⟩ := by
  rw [last?, on_store_self, List.getLast?_concat]

/-- A chunk goes behind the chunks of its nuid. -/
theorem chunks_store_self (bytes : Bytes) :
    (b.store (b.chunkSubject id) (.bytes bytes) false).chunks id = b.chunks id ++ [bytes] := by
  simp only [chunks, chunkSubject_store, on_store_self, Bool.false_eq_true, ↓reduceIte,
    List.filterMap_append, List.filterMap_cons, List.filterMap_nil]

theorem chunks_store_of_ne (hne : b.chunkSubject id ≠ subject) :
    (b.store subject data rollup).chunks id = b.chunks id := by
  rw [chunks, chunkSubject_store, on_store_of_ne hne]
  rfl

theorem chunks_purge_self : (b.purge (b.chunkSubject id)).chunks id = [] := by
  rw [chunks, chunkSubject_purge, on_purge_self]
  rfl

theorem chunks_purge_of_ne (hne : b.chunkSubject id ≠ filter) :
    (b.purge filter).chunks id = b.chunks id := by
  rw [chunks, chunkSubject_purge, on_purge_of_ne hne]
  rfl

theorem latest_eq (hsubject : b.metaSubject n = some subject) :
    b.latest n = match b.last? subject with
      | some ⟨_, _, .json info⟩ => some info
      | _ => none := by
  rw [latest, hsubject]
  rfl

theorem latest_congr {b' : Bucket} (hname : b'.name = b.name)
    (hlast : ∀ subject, b.metaSubject n = some subject → b'.last? subject = b.last? subject) :
    b'.latest n = b.latest n := by
  have hmeta : b'.metaSubject n = b.metaSubject n := by rw [metaSubject, hname, metaSubject]
  rw [latest, latest, hmeta]
  cases hsubject : b.metaSubject n with
  | none => rfl
  | some subject =>
      simp only [Option.bind_some, hlast subject hsubject]

/-- An entry is the last one of its name, and of no other. -/
theorem latest_store {info : ServerObjectInfo} (hsubject : b.metaSubject n = some subject)
    (m : String) :
    (b.store subject (.json info) rollup).latest m = if m = n then some info else b.latest m := by
  by_cases hm : m = n
  · subst hm
    rw [if_pos rfl, latest_eq (b := b.store subject (.json info) rollup) hsubject, last?_store_self]
  · rw [if_neg hm]
    apply latest_congr (name_store ..)
    intro other hother
    have hne : other ≠ subject := by
      intro heq
      subst heq
      exact hm (metaSubject_inj hother hsubject)
    rw [last?, on_store_of_ne hne]
    rfl

theorem latest_store_chunk (bytes : Bytes) (m : String) :
    (b.store (b.chunkSubject id) (.bytes bytes) rollup).latest m = b.latest m := by
  apply latest_congr (name_store ..)
  intro other hother
  rw [last?, on_store_of_ne (chunkSubject_ne_metaSubject hother).symm]
  rfl

theorem latest_purge_chunks (m : String) : (b.purge (b.chunkSubject id)).latest m = b.latest m := by
  apply latest_congr (name_purge ..)
  intro other hother
  rw [last?, on_purge_of_ne (chunkSubject_ne_metaSubject hother).symm]
  rfl

/-- The entries of one name go. -/
theorem latest_purge (hsubject : b.metaSubject n = some subject) (m : String) :
    (b.purge subject).latest m = if m = n then none else b.latest m := by
  by_cases hm : m = n
  · subst hm
    rw [if_pos rfl, latest_eq (b := b.purge subject) hsubject, last?, on_purge_self]
    rfl
  · rw [if_neg hm]
    apply latest_congr (name_purge ..)
    intro other hother
    have hne : other ≠ subject := by
      intro heq
      subst heq
      exact hm (metaSubject_inj hother hsubject)
    rw [last?, on_purge_of_ne hne]
    rfl

/-- What `rawInfo` reads is the last entry. -/
theorem latest_of_rawInfo {info : ServerObjectInfo} (h : b.rawInfo n = .ok (some info)) :
    ∃ stored seq, b.latest n = some stored ∧ info = { stored with revision := some seq } := by
  unfold rawInfo at h
  split at h
  · cases h
  · split at h
    · cases h
    · next subject hsubject =>
        split at h
        · cases h
        · next m hm =>
            split at h
            · next stored hdata =>
                cases h
                refine ⟨stored, m.seq, ?_, rfl⟩
                obtain ⟨seq, at', data⟩ := m
                cases hdata
                rw [latest_eq hsubject, hm]
            · cases h

end

end Bucket

end NatsClient.ObjectStore
