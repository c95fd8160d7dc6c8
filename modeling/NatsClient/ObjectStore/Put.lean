import NatsClient.Foundation.Partition
import NatsClient.ObjectStore.Bucket
import NatsClient.Wire.DataBuffer

/-!
# Putting an object

Model of `_put` (`objectstore.ts`) where every publish of a chunk succeeds. The `Writer` is the
state of its loop: the buffer, the hash, the counters of the entry and the chunks published.
`Writer.value` is what one piece of the source does, with its inner loop (`Writer.turns`),
`Writer.done` what the end of the source does, and `putInto` the whole call on the stream of the
bucket.

* `Writer.write_spec`: however the bytes are cut into pieces, the chunks published are the partition
  of the bytes into pieces of the chunk size, and size, number of chunks and digest are those of the
  bytes;
* `putInto_ok`: what a put leaves in the stream.
-/

set_option autoImplicit false

namespace NatsClient.ObjectStore

open Foundation Wire

variable {sha256 : StreamingHash}

/-- `meta.options.max_chunk_size` behind the first lines of `_put`: 128 KiB by default, and at most
what the server takes in a message. -/
def maxChunkOf (options : Option ObjectStoreMetaOptions) (maxPayload : Option Nat) :
    { n : Nat // 0 < n } :=
  -- `||` takes a zero for a missing value
  let orElse (n : Option Nat) (d : Nat) : Nat := if n.getD 0 = 0 then d else n.getD 0
  let maxPayload := orElse maxPayload 1024
  let maxChunk := orElse (options.bind (·.maxChunkSize)) (128 * 1024)
  ⟨if maxChunk > maxPayload then maxPayload else maxChunk, by
    simp only [maxPayload, maxChunk, orElse]
    split_ifs <;> omega⟩

/-- The state of the loop of `_put`. -/
structure Writer (sha256 : StreamingHash) where
  db : DataBuffer
  sha : sha256.State
  size : Nat
  chunks : Nat
  published : List Bytes

namespace Writer

/-- In front of the loop. -/
def start : Writer sha256 := ⟨DataBuffer.empty, sha256.create, 0, 0, []⟩

/-- One turn of the inner loop: a full chunk is published. -/
def turn (maxChunk : Nat) (w : Writer sha256) : Writer sha256 :=
  let drained := w.db.drain (some maxChunk)
  ⟨drained.2, sha256.update w.sha drained.1, w.size + maxChunk, w.chunks + 1,
    w.published ++ [drained.1]⟩

theorem size_turn (maxChunk : Nat) (w : Writer sha256) :
    (w.turn maxChunk).db.size = w.db.size - maxChunk := by
  have hrest := (w.db.drain_eq (some maxChunk)).2
  rw [← DataBuffer.length_contents, ← DataBuffer.length_contents]
  show (w.db.drain (some maxChunk)).2.contents.length = _
  rw [hrest, List.length_drop]
  rfl

/-- The inner loop: full chunks are published while the buffer holds more than one. -/
def turns (maxChunk : { n : Nat // 0 < n }) (w : Writer sha256) : Writer sha256 :=
  if maxChunk.1 < w.db.size then (w.turn maxChunk.1).turns maxChunk else w
termination_by w.db.size
decreasing_by
  rw [size_turn]
  exact Nat.sub_lt (by omega) maxChunk.2

/-- A piece of the source. -/
def value (maxChunk : { n : Nat // 0 < n }) (w : Writer sha256) (value : Bytes) : Writer sha256 :=
  { w with db := w.db.fill value [] }.turns maxChunk

/-- The end of the source: what is left in the buffer is a chunk. -/
def done (w : Writer sha256) : Writer sha256 :=
  if 0 < w.db.size then
    let drained := w.db.drain none
    ⟨drained.2, sha256.update w.sha drained.1, w.size + drained.1.length, w.chunks + 1,
      w.published ++ [drained.1]⟩
  else w

/-- The whole loop on the pieces of a source. -/
def write (maxChunk : { n : Nat // 0 < n }) (pieces : List Bytes) : Writer sha256 :=
  (pieces.foldl (value maxChunk) start).done

/-- What holds of the loop when the bytes were read: they are in the chunks published, all of them
full, and in the buffer, and hash and counters are those of the chunks. -/
structure Holds (maxChunk : Nat) (bytes : Bytes) (w : Writer sha256) : Prop where
  bytes_eq : w.published.flatten ++ w.db.contents = bytes
  full : ∀ p ∈ w.published, p.length = maxChunk
  size_eq : w.size = w.published.flatten.length
  chunks_eq : w.chunks = w.published.length
  sha_eq : w.sha = w.published.foldl sha256.update sha256.create

section

variable {maxChunk : { n : Nat // 0 < n }} {bytes : Bytes} {w : Writer sha256}

theorem holds_start (n : Nat) : (start : Writer sha256).Holds n [] where
  bytes_eq := rfl
  full := by
    intro p hp
    cases hp
  size_eq := rfl
  chunks_eq := rfl
  sha_eq := rfl

/-- The hash of one more chunk. -/
theorem update_eq {sha : sha256.State} {published : List Bytes}
    (hsha : sha = published.foldl sha256.update sha256.create) (payload : Bytes) :
    sha256.update sha payload = (published ++ [payload]).foldl sha256.update sha256.create := by
  rw [List.foldl_append, List.foldl_cons, List.foldl_nil, hsha]

/-- A turn moves a full chunk from the buffer to the stream. -/
theorem Holds.turn {n : Nat} (h : w.Holds n bytes) (hsize : n < w.db.size) :
    (w.turn n).Holds n bytes := by
  obtain ⟨hbytes, hfull, hsize_eq, hchunks, hsha⟩ := h
  have hdrain := w.db.drain_contents (some n)
  have hpayload : (w.db.drain (some n)).1.length = n := by
    rw [(w.db.drain_eq (some n)).1, List.length_take, DataBuffer.length_contents]
    exact Nat.min_eq_left (Nat.le_of_lt hsize)
  constructor
  · show (w.published ++ [_]).flatten ++ (w.db.drain (some n)).2.contents = bytes
    rw [List.flatten_append, List.flatten_singleton, List.append_assoc, hdrain, hbytes]
  · intro p hp
    rcases List.mem_append.1 hp with hp | hp
    · exact hfull p hp
    · rw [List.mem_singleton.1 hp, hpayload]
  · show w.size + n = (w.published ++ [_]).flatten.length
    rw [List.flatten_append, List.flatten_singleton, List.length_append, hpayload, hsize_eq]
  · show w.chunks + 1 = (w.published ++ [_]).length
    rw [List.length_append, List.length_singleton, hchunks]
  · exact update_eq hsha _

/-- The inner loop keeps the bytes, and leaves at most a chunk in the buffer. -/
theorem Holds.turns (h : w.Holds maxChunk bytes) :
    (w.turns maxChunk).Holds maxChunk bytes ∧ (w.turns maxChunk).db.size ≤ maxChunk := by
  induction w using Writer.turns.induct maxChunk with
  | case1 w hmore ih =>
      rw [Writer.turns, if_pos hmore]
      exact ih (h.turn hmore)
  | case2 w hless =>
      rw [Writer.turns, if_neg hless]
      exact ⟨h, Nat.le_of_not_lt hless⟩

/-- A piece of the source is read behind the bytes. -/
theorem Holds.value (h : w.Holds maxChunk bytes) (piece : Bytes) :
    (w.value maxChunk piece).Holds maxChunk (bytes ++ piece) ∧
      (w.value maxChunk piece).db.size ≤ maxChunk := by
  apply Holds.turns
  constructor
  · show w.published.flatten ++ (w.db.fill piece []).contents = _
    rw [DataBuffer.contents_fill, List.flatten_nil, List.append_nil,
      ← List.append_assoc, h.bytes_eq]
  · exact h.full
  · exact h.size_eq
  · exact h.chunks_eq
  · exact h.sha_eq

theorem Holds.values (pieces : List Bytes) (h : w.Holds maxChunk bytes)
    (hsize : w.db.size ≤ maxChunk) :
    (pieces.foldl (Writer.value maxChunk) w).Holds maxChunk (bytes ++ pieces.flatten) ∧
      (pieces.foldl (Writer.value maxChunk) w).db.size ≤ maxChunk := by
  induction pieces generalizing w bytes with
  | nil =>
      rw [List.flatten_nil, List.append_nil]
      exact ⟨h, hsize⟩
  | cons piece pieces ih =>
      obtain ⟨hpiece, hle⟩ := h.value piece
      rw [List.flatten_cons, ← List.append_assoc]
      exact ih hpiece hle

/-- Behind the loop: the partition of the bytes, with their size, their number of chunks and their
digest. -/
structure Wrote (maxChunk : Nat) (bytes : Bytes) (w : Writer sha256) : Prop where
  partition : IsPartition maxChunk bytes w.published
  size_eq : w.size = bytes.length
  chunks_eq : w.chunks = w.published.length
  digest_eq : sha256.digest w.sha = sha256.hash bytes

theorem Holds.done (h : w.Holds maxChunk bytes) (hsize : w.db.size ≤ maxChunk) :
    w.done.Wrote maxChunk bytes := by
  obtain ⟨hbytes, hfull, hsize_eq, hchunks, hsha⟩ := h
  have hlength := w.db.length_contents
  have hall := (w.db.drain_all).1
  cases hrest : w.db.contents with
  | nil =>
      -- nothing is left: the last chunk was full, or there were no bytes
      have hempty : ¬ 0 < w.db.size := by
        rw [← hlength, hrest]
        exact Nat.lt_irrefl 0
      rw [hrest, List.append_nil] at hbytes
      subst hbytes
      rw [Writer.done, if_neg hempty]
      refine ⟨?_, hsize_eq, hchunks, ?_⟩
      · cases hpublished : w.published.getLast? with
        | none =>
            rw [List.getLast?_eq_none_iff.1 hpublished]
            exact IsPartition.nil
        | some p =>
            refine ⟨rfl, fun q hq => hfull q (List.dropLast_subset _ hq), ?_⟩
            intro q hq
            have hq := hfull q (List.mem_of_mem_getLast? hq)
            have hpos := maxChunk.2
            omega
      · rw [hsha, sha256.digest_updates]
  | cons byte rest =>
      have hsome : 0 < w.db.size := by
        rw [← hlength, hrest]
        exact Nat.succ_pos _
      rw [Writer.done, if_pos hsome]
      have hpos : 0 < w.db.contents.length := by omega
      have hle : w.db.contents.length ≤ maxChunk := by omega
      subst hbytes
      refine ⟨?_, ?_, ?_, ?_⟩
      · show IsPartition _ _ (w.published ++ [(w.db.drain none).1])
        rw [hall]
        exact IsPartition.concat hfull hpos hle
      · show w.size + (w.db.drain none).1.length = _
        rw [hall, List.length_append, hsize_eq]
      · show w.chunks + 1 = (w.published ++ [_]).length
        rw [List.length_append, List.length_singleton, hchunks]
      · show sha256.digest (sha256.update w.sha (w.db.drain none).1) = _
        rw [hall, update_eq hsha, sha256.digest_updates, List.flatten_append,
          List.flatten_singleton]

/-- **The chunks do not depend on how the source is split.** -/
theorem write_spec (maxChunk : { n : Nat // 0 < n }) (pieces : List Bytes) :
    (write maxChunk pieces : Writer sha256).Wrote maxChunk pieces.flatten := by
  have hstart : (start : Writer sha256).db.size ≤ maxChunk := Nat.zero_le _
  obtain ⟨hread, hle⟩ := (holds_start maxChunk.1).values pieces hstart
  rw [List.nil_append] at hread
  exact hread.done hle

end

end Writer

/-- `digestType`. -/
def digestType : String := "SHA-256="

/-- A call of `_put`: its arguments (`previousRevision` is the option, and `rs` the pieces the
reader gives until it is done, none for a `null`), the `max_payload` of the server, and the nuid and
the time the call takes. -/
structure PutCall where
  objMeta : ObjectStoreMeta
  rs : List Bytes
  previousRevision : Option Nat
  maxPayload : Option Nat
  id : String
  now : String

namespace PutCall

variable (call : PutCall)

/-- The chunk size of the call. -/
def maxChunk : { n : Nat // 0 < n } := maxChunkOf call.objMeta.options call.maxPayload

/-- The loop of the call. -/
def writer : Writer sha256 := Writer.write call.maxChunk call.rs

/-- The entry of the call: `toServerObjectStoreMeta(meta)` over the fields of the put. -/
def entry (bucket : String) (w : Writer sha256) : ServerObjectInfo where
  name := call.objMeta.name
  description := some (call.objMeta.description.getD "")
  headers := call.objMeta.headers
  options := some ⟨call.objMeta.options.bind (·.link), some call.maxChunk.1⟩
  metadata := call.objMeta.metadata
  bucket := bucket
  nuid := some call.id
  size := some w.size
  chunks := some w.chunks
  digest := some (digestType ++ base64UrlPadded (sha256.digest w.sha))
  deleted := some false
  mtime := some call.now
  revision := none

end PutCall

namespace Bucket

variable {b : Bucket} {id other subject : String} {published : List Bytes}

/-- Chunks published under a nuid, one after the other. -/
def storeChunks (b : Bucket) (id : String) (published : List Bytes) : Bucket :=
  published.foldl (fun b payload => b.store (b.chunkSubject id) (.bytes payload) false) b

@[simp] theorem name_storeChunks : (b.storeChunks id published).name = b.name := by
  induction published generalizing b with
  | nil => rfl
  | cons payload published ih => exact ih

@[simp] theorem chunkSubject_storeChunks : (b.storeChunks id published).chunkSubject other =
    b.chunkSubject other := by
  rw [chunkSubject, name_storeChunks]
  rfl

@[simp] theorem metaSubject_storeChunks : (b.storeChunks id published).metaSubject other =
    b.metaSubject other := by
  rw [metaSubject, name_storeChunks]
  rfl

theorem chunks_storeChunks : (b.storeChunks id published).chunks id = b.chunks id ++ published := by
  induction published generalizing b with
  | nil => rw [List.append_nil]; rfl
  | cons payload published ih =>
      rw [storeChunks, List.foldl_cons]
      refine ih.trans ?_
      rw [chunks_store_self, List.append_assoc]
      rfl

/-- Only the subject of the nuid is touched. -/
theorem on_storeChunks_of_ne (hne : subject ≠ b.chunkSubject id) :
    (b.storeChunks id published).on subject = b.on subject := by
  induction published generalizing b with
  | nil => rfl
  | cons payload published ih =>
      have hthis : (b.store (b.chunkSubject id) (.bytes payload) false).on subject = b.on subject :=
        on_store_of_ne hne
      rw [storeChunks, List.foldl_cons, ← hthis]
      exact ih hne

/-- The sequence number of the last message of a subject, zero if there is none. -/
def lastSeqOn (b : Bucket) (subject : String) : Nat := (b.last? subject).elim 0 (·.seq)

/-- Nothing in the stream has to do with the nuid. -/
def Fresh (b : Bucket) (id : String) : Prop :=
  ∀ m ∈ b.msgs, m.subject ≠ b.chunkSubject id ∧ ∀ info, m.data = .json info → info.nuidText ≠ id

instance : Decidable (b.Fresh id) :=
  have hentry : ∀ data : Payload, Decidable (∀ info, data = .json info → info.nuidText ≠ id)
    | .bytes _ => .isTrue fun _ heq => by cases heq
    | .json info => decidable_of_iff (info.nuidText ≠ id)
        ⟨fun h _ heq => by cases heq; exact h, fun h => h info rfl⟩
  have : ∀ m : StreamMsg,
      Decidable (m.subject ≠ b.chunkSubject id ∧ ∀ info, m.data = .json info →
        info.nuidText ≠ id) :=
    fun m => have := hentry m.data; inferInstance
  List.decidableBAll _ b.msgs

theorem Fresh.chunks_eq (h : b.Fresh id) : b.chunks id = [] := by
  have hon : b.on (b.chunkSubject id) = [] := by
    rw [on, List.filter_eq_nil_iff]
    intro m hm
    simpa using (h m hm).1
  rw [chunks, hon]
  rfl

/-- What is read is a stored entry with the sequence number it was stored at. -/
theorem rawInfo_some {name : String} {info : ServerObjectInfo}
    (h : b.rawInfo name = .ok (some info)) :
    ∃ m ∈ b.msgs, ∃ stored, m.data = .json stored ∧
      info = { stored with revision := some m.seq } := by
  unfold rawInfo at h
  split at h
  · cases h
  · split at h
    · cases h
    · next subject _ =>
        split at h
        · cases h
        · next m hm =>
            split at h
            · next stored hdata =>
                cases h
                have hmem : m ∈ b.on subject := List.mem_of_getLast? hm
                exact ⟨m, (List.mem_filter.1 hmem).1, stored, hdata, rfl⟩
            · cases h

/-- An entry that is the last message of the name's subject is what is read. -/
theorem rawInfo_of_last {name : String} {m : StreamMsg} {stored : ServerObjectInfo}
    (hname : name ≠ "") (hsubject : b.metaSubject name = some subject)
    (hlast : b.last? subject = some m) (hdata : m.data = .json stored) :
    b.rawInfo name = .ok (some { stored with revision := some m.seq }) := by
  simp only [rawInfo, hname, ↓reduceIte, hsubject, hlast, hdata]

/-- What is read under a subject the name has. -/
theorem metaSubject_of_rawInfo {name : String} {r : Option ServerObjectInfo}
    (h : b.rawInfo name = .ok r) : name ≠ "" ∧ ∃ subject, b.metaSubject name = some subject := by
  unfold rawInfo at h
  split at h
  · cases h
  · next hname =>
      split at h
      · cases h
      · next subject hsubject => exact ⟨hname, subject, hsubject⟩

end Bucket

/-- `_put(meta, rs, opts)`: the stream behind it, and the error or the info it settles with. -/
def putInto (sha256 : StreamingHash) (b : Bucket) (call : PutCall) :
    Bucket × Except String ServerObjectInfo :=
  match b.rawInfo call.objMeta.name with
  | .error e => (b, .error e)
  | .ok old =>
      match b.metaSubject call.objMeta.name with
      | none => (b, .error "InvalidCharacterError")
      | some metaSubj =>
          let w : Writer sha256 := call.writer
          let info := call.entry b.name w
          let b := b.storeChunks call.id w.published
          let last := b.lastSeqOn metaSubj
          -- the server refuses the entry of a put that expects another revision
          if call.previousRevision.getD last ≠ last then
            (b.purge (b.chunkSubject call.id), .error s!"wrong last sequence: {last}")
          else
            let b := b.store metaSubj (.json info) true
            let info := { info with revision := some b.lastSeq }
            match old with
            | none => (b, .ok info)
            | some old => (b.purge (b.chunkSubject old.nuidText), .ok info)

/-- `put(meta, rs, opts)`. -/
def put (sha256 : StreamingHash) (b : Bucket) (call : PutCall) :
    Bucket × Except String ServerObjectInfo :=
  if (call.objMeta.options.bind (·.link)).isSome then
    (b, .error "link cannot be set when putting the object in bucket")
  else putInto sha256 b call

/-- `linkStore(name, bucket)`: an entry for a whole bucket, without bytes. -/
def linkStore (sha256 : StreamingHash) (b : Bucket) (name bucket : String) (maxPayload : Option Nat)
    (id now : String) : Bucket × Except String ServerObjectInfo :=
  if name = "" then (b, .error "name cannot be empty")
  else
    let options : ObjectStoreMetaOptions := ⟨some ⟨bucket, none⟩, none⟩
    putInto sha256 b ⟨⟨name, none, none, some options, none⟩, [], none, maxPayload, id, now⟩

/-- The info of the entry that a put stored. -/
def PutCall.stored (sha256 : StreamingHash) (call : PutCall) (b : Bucket) (seq : Nat) :
    ServerObjectInfo :=
  { call.entry b.name (call.writer : Writer sha256) with revision := some seq }

/-- **What a put leaves in the stream.** The chunks of the writer are stored under the nuid and the
entry is what is read under the name; the revision that was expected, if any, has to be the last. -/
theorem putInto_ok {b : Bucket} {call : PutCall} {old : Option ServerObjectInfo} {metaSubj : String}
    (hold : b.rawInfo call.objMeta.name = .ok old)
    (hsubj : b.metaSubject call.objMeta.name = some metaSubj)
    (hrevision : ∀ r ∈ call.previousRevision, r = b.lastSeqOn metaSubj) (hfresh : b.Fresh call.id) :
    ∃ b' seq, putInto sha256 b call = (b', .ok (call.stored sha256 b seq)) ∧ b'.name = b.name ∧
      b'.chunks call.id = (call.writer : Writer sha256).published ∧
      b'.rawInfo call.objMeta.name = .ok (some (call.stored sha256 b seq)) := by
  obtain ⟨hname, _⟩ := Bucket.metaSubject_of_rawInfo hold
  -- the stream behind the chunks, and behind the entry
  let b₁ := b.storeChunks call.id (call.writer : Writer sha256).published
  let b₂ := b₁.store metaSubj (.json (call.entry b.name (call.writer : Writer sha256))) true
  have hapart : ∀ id, b.chunkSubject id ≠ metaSubj :=
    fun id => Bucket.chunkSubject_ne_metaSubject hsubj
  have hlastSeq : b₁.lastSeqOn metaSubj = b.lastSeqOn metaSubj := by
    rw [Bucket.lastSeqOn, Bucket.last?, Bucket.on_storeChunks_of_ne (hapart call.id).symm]
    rfl
  have hexpected : ¬ call.previousRevision.getD (b₁.lastSeqOn metaSubj) ≠
      b₁.lastSeqOn metaSubj := by
    cases hrev : call.previousRevision with
    | none => exact fun h => h rfl
    | some r =>
        rw [hlastSeq, hrevision r hrev]
        exact fun h => h rfl
  have hname₂ : b₂.name = b.name := Bucket.name_storeChunks
  have hsubj₂ : b₂.metaSubject call.objMeta.name = some metaSubj := by
    rw [Bucket.metaSubject, hname₂]
    exact hsubj
  have hchunkSubj₂ : ∀ id, b₂.chunkSubject id = b.chunkSubject id := fun id =>
    Bucket.chunkSubject_storeChunks
  have hchunks₂ : b₂.chunks call.id = (call.writer : Writer sha256).published := by
    have hne : b₁.chunkSubject call.id ≠ metaSubj := by
      rw [Bucket.chunkSubject_storeChunks]
      exact hapart call.id
    rw [Bucket.chunks_store_of_ne hne, Bucket.chunks_storeChunks, hfresh.chunks_eq, List.nil_append]
  have hlast₂ : b₂.last? metaSubj = some ⟨b₁.lastSeq + 1, metaSubj,
      .json (call.entry b.name (call.writer : Writer sha256))⟩ := Bucket.last?_store_self
  cases old with
  | none =>
      refine ⟨b₂, b₂.lastSeq, ?_, hname₂, hchunks₂, ?_⟩
      · simp only [putInto, hold, hsubj]
        rw [if_neg hexpected]
        rfl
      · exact Bucket.rawInfo_of_last hname hsubj₂ hlast₂ rfl
  | some old =>
      -- the chunks of the old entry are purged: they are not those of this call
      have hother : old.nuidText ≠ call.id := by
        obtain ⟨m, hm, stored, hdata, rfl⟩ := Bucket.rawInfo_some hold
        exact (hfresh m hm).2 stored hdata
      refine ⟨b₂.purge (b₂.chunkSubject old.nuidText), b₂.lastSeq, ?_, hname₂, ?_, ?_⟩
      · simp only [putInto, hold, hsubj]
        rw [if_neg hexpected]
        rfl
      · rw [Bucket.chunks_purge_of_ne, hchunks₂]
        intro heq
        exact hother (Bucket.chunkSubject_inj heq).symm
      · have hkept : (b₂.purge (b₂.chunkSubject old.nuidText)).last? metaSubj =
            b₂.last? metaSubj := by
          rw [Bucket.last?, Bucket.on_purge_of_ne]
          · rfl
          · rw [hchunkSubj₂]
            exact (hapart old.nuidText).symm
        have hsubj₃ : (b₂.purge (b₂.chunkSubject old.nuidText)).metaSubject call.objMeta.name =
            some metaSubj := hsubj₂
        exact Bucket.rawInfo_of_last hname hsubj₃ (hkept.trans hlast₂) rfl

end NatsClient.ObjectStore
