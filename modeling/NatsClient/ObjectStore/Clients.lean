import NatsClient.Foundation.Run
import NatsClient.ObjectStore.Put

/-!
# Clients of one bucket

Model of the calls `_put`, `delete`, `update` and `link` (`objectstore.ts`) that several clients
make on one bucket. A call goes through its stages: each reads an entry, publishes a chunk or an
entry, or purges a subject, and between two of them any other call may do the same (`step`). A call
may also fail at any of them (`Call.fail`). Nothing in the calls compares what they read with what
is stored when they write.

What this does to an object is said by `Complete`: all chunks of its put are stored, in order, and
the entry has their number and size (`Whole`, for an entry that may have no nuid).
-/

set_option autoImplicit false

namespace NatsClient.ObjectStore

open Foundation Wire

/-- The argument of `update`: `Partial<ObjectStoreMeta>`. -/
structure ObjectStoreUpdate where
  name : Option String
  description : Option String
  headers : Option (List (String × List String))
  options : Option ObjectStoreMetaOptions
  metadata : Option (List (String × String))
deriving DecidableEq, Repr

/-- A call that is made: `_put`, `delete(name)`, `update(name, change)` or `link(name, info)`. -/
inductive Op where
  | put (call : PutCall)
  | delete (name : String)
  | update (name : String) (change : ObjectStoreUpdate)
  | link (name : String) (info : ServerObjectInfo)

/-- A put in front of its read, at its chunks, in front of the answer to its entry, which is stored,
at the purge of the old chunks, or failed and in front of the purge of its own. -/
inductive PutStage where
  | reading
  | writing (old : Option ServerObjectInfo) (rest : List Bytes)
  | published (old : Option ServerObjectInfo)
  | purging (old : ServerObjectInfo)
  | cleaning
  | finished

/-- A delete in front of its read, at the publish of the deleted entry, or at the purge. -/
inductive DeleteStage where
  | reading
  | publishing (info : ServerObjectInfo)
  | purging (info : ServerObjectInfo)
  | finished

/-- An update in front of its read, in front of the read of the new name, at the publish, or at the
purge of the old name. -/
inductive UpdateStage where
  | reading
  | targeting (info : ServerObjectInfo)
  | publishing (info : ServerObjectInfo)
  | purging
  | finished

/-- A link in front of its read, or at the publish. -/
inductive LinkStage where
  | reading
  | publishing
  | finished

/-- A call that was made, and its stage. -/
inductive Call where
  | put (call : PutCall) (stage : PutStage)
  | delete (name : String) (stage : DeleteStage)
  | update (name : String) (change : ObjectStoreUpdate) (stage : UpdateStage)
  | link (name : String) (info : ServerObjectInfo) (stage : LinkStage)

/-- What a call was made as. -/
def Call.op : Call → Op
  | .put call _ => .put call
  | .delete name _ => .delete name
  | .update name change _ => .update name change
  | .link name info _ => .link name info

/-- A call in front of its first read. -/
def Op.call : Op → Call
  | .put call => .put call .reading
  | .delete name => .delete name .reading
  | .update name change => .update name change .reading
  | .link name info => .link name info .reading

/-- Whether a call has something left to do. -/
def Call.pending : Call → Bool
  | .put _ .finished | .delete _ .finished | .update _ _ .finished | .link _ _ .finished => false
  | _ => true

/-- The next stream operation of `_put`. -/
def PutStage.advance (sha256 : StreamingHash) (b : Bucket) (call : PutCall) :
    PutStage → Option (Bucket × PutStage)
  | .reading =>
      match b.rawInfo call.objMeta.name with
      | .error _ => some (b, .finished)
      | .ok old => some (b, .writing old (call.writer : Writer sha256).published)
  | .writing old (payload :: rest) =>
      some (b.store (b.chunkSubject call.id) (.bytes payload) false, .writing old rest)
  | .writing old [] =>
      match b.metaSubject call.objMeta.name with
      | none => some (b, .cleaning)
      | some metaSubj =>
          let last := b.lastSeqOn metaSubj
          if call.previousRevision.getD last ≠ last then some (b, .cleaning)
          else
            let info := call.entry b.name (call.writer : Writer sha256)
            some (b.store metaSubj (.json info) true, .published old)
  | .published none => some (b, .finished)
  | .published (some old) => some (b, .purging old)
  | .purging old => some (b.purge (b.chunkSubject old.nuidText), .finished)
  | .cleaning => some (b.purge (b.chunkSubject call.id), .finished)
  | .finished => none

/-- The entry of a deleted object. -/
def ServerObjectInfo.asDeleted (info : ServerObjectInfo) : ServerObjectInfo :=
  { info with deleted := some true, size := some 0, chunks := some 0, digest := some "" }

/-- The next stream operation of `delete(name)`. -/
def DeleteStage.advance (b : Bucket) (name : String) : DeleteStage → Option (Bucket × DeleteStage)
  | .reading =>
      match b.rawInfo name with
      | .ok (some info) => some (b, .publishing info.asDeleted)
      | _ => some (b, .finished)
  | .publishing info =>
      match b.metaSubject info.name with
      | none => some (b, .finished)
      | some metaSubj => some (b.store metaSubj (.json info) true, .purging info)
  | .purging info => some (b.purge (b.chunkSubject info.nuidText), .finished)
  | .finished => none

/-- `Object.assign({}, info, toServerObjectStoreMeta(meta))`, `meta.name` being the new name. -/
def ServerObjectInfo.assign (info : ServerObjectInfo) (name : String) (change : ObjectStoreUpdate) :
    ServerObjectInfo :=
  { info with
    name := name
    description := some (change.description.getD "")
    options := change.options
    metadata := change.metadata
    headers := change.headers <|> info.headers }

/-- The next stream operation of `update(name, meta)`. -/
def UpdateStage.advance (b : Bucket) (name : String) (change : ObjectStoreUpdate) :
    UpdateStage → Option (Bucket × UpdateStage)
  | .reading =>
      match b.rawInfo name with
      | .ok (some info) =>
          let target := change.name.getD info.name
          if info.isDeleted ∨ target = "" then some (b, .finished)
          else if name ≠ target then some (b, .targeting info)
          else some (b, .publishing (info.assign target change))
      | _ => some (b, .finished)
  | .targeting info =>
      let target := change.name.getD info.name
      match b.rawInfo target with
      | .error _ => some (b, .finished)
      | .ok (some i) =>
          if i.isDeleted then some (b, .publishing (info.assign target change))
          else some (b, .finished)
      | .ok none => some (b, .publishing (info.assign target change))
  | .publishing info =>
      match b.metaSubject info.name with
      | none => some (b, .finished)
      | some metaSubj =>
          some (b.store metaSubj (.json info) false,
            if name ≠ info.name then .purging else .finished)
  | .purging =>
      match b.metaSubject name with
      | none => some (b, .finished)
      | some metaSubj => some (b.purge metaSubj, .finished)
  | .finished => none

/-- The entry of a link to an object. -/
def linkEntry (name : String) (info : ServerObjectInfo) : ServerObjectInfo where
  name := name
  description := none
  headers := none
  options := some ⟨some ⟨info.bucket, some info.name⟩, none⟩
  metadata := none
  bucket := info.bucket
  nuid := none
  size := none
  chunks := none
  digest := none
  deleted := none
  mtime := none
  revision := none

/-- The next stream operation of `link(name, info)`. -/
def LinkStage.advance (b : Bucket) (name : String) (info : ServerObjectInfo) :
    LinkStage → Option (Bucket × LinkStage)
  | .reading =>
      if name = "" ∨ info.isDeleted ∨ info.link.isSome then some (b, .finished)
      else
        match b.rawInfo name with
        | .error _ => some (b, .finished)
        | .ok (some dest) => some (b, if dest.isDeleted then .publishing else .finished)
        | .ok none => some (b, .publishing)
  | .publishing =>
      match b.metaSubject name with
      | none => some (b, .finished)
      | some metaSubj => some (b.store metaSubj (.json (linkEntry name info)) false, .finished)
  | .finished => none

/-- The next stream operation of a call. -/
def Call.advance (sha256 : StreamingHash) (b : Bucket) : Call → Option (Bucket × Call)
  | .put call stage => (stage.advance sha256 b call).map fun r => (r.1, .put call r.2)
  | .delete name stage => (stage.advance b name).map fun r => (r.1, .delete name r.2)
  | .update name change stage =>
      (stage.advance b name change).map fun r => (r.1, .update name change r.2)
  | .link name info stage => (stage.advance b name info).map fun r => (r.1, .link name info r.2)

/-- A put that fails: its reader does, an operation is refused, or there is no answer to it in time.
It purges its chunks (`catch`), also where the entry was stored and the answer was lost; that the
purge of the old chunks failed is not told. -/
def PutStage.fail : PutStage → Option PutStage
  | .writing _ _ | .published _ => some .cleaning
  | .reading | .purging _ | .cleaning => some .finished
  | .finished => none

/-- A call that fails. What it stored stays. -/
def Call.fail : Call → Option Call
  | .put call stage => stage.fail.map (.put call)
  | .delete _ .finished | .update _ _ .finished | .link _ _ .finished => none
  | .delete name _ => some (.delete name .finished)
  | .update name change _ => some (.update name change .finished)
  | .link name info _ => some (.link name info .finished)

/-- A call that has published its entry, and counts on what comes next: a put on the answer, an
update on the purge of the old name. -/
def Call.halfway : Call → Bool
  | .put _ (.published _) | .update _ _ .purging => true
  | _ => false

/-- The bucket, the calls made so far, and the puts among them. -/
structure Clients where
  bucket : Bucket
  calls : List Call
  puts : List PutCall

/-- What happens: a call is made, the `i`-th call does its next stream operation, or it fails. -/
inductive ClientEvent where
  | start (op : Op)
  | advance (i : Nat)
  | fail (i : Nat)

/-- **An object is complete**: the chunks stored for its nuid are those of the put that took the
nuid, in order, and the entry has their number and their size. -/
def Complete (sha256 : StreamingHash) (b : Bucket) (puts : List PutCall) (info : ServerObjectInfo)
    (id : String) : Prop :=
  ∃ call ∈ puts, call.id = id ∧ b.chunks id = (call.writer : Writer sha256).published ∧
    info.chunks = some (b.chunks id).length ∧ info.size = some (b.chunks id).flatten.length

/-- **The object of an entry is there**: it is complete, or the entry has no nuid, no number of
chunks and no size, and no chunks are stored for it. -/
def Whole (sha256 : StreamingHash) (b : Bucket) (puts : List PutCall) (info : ServerObjectInfo) :
    Prop :=
  match info.nuid with
  | some id => Complete sha256 b puts info id
  | none => info.chunks = none ∧ info.size = none ∧ b.chunks info.nuidText = []

namespace Clients

/-- The clients of an empty bucket. -/
def init (name : String) : Clients := ⟨⟨name, [], 0⟩, [], []⟩

/-- The puts behind a call: the nuid of a put is new. -/
def putsWith (s : Clients) : Op → Option (List PutCall)
  | .put call =>
      if call.id ≠ "undefined" ∧ ∀ p ∈ s.puts, p.id ≠ call.id then some (call :: s.puts) else none
  | .delete _ | .update _ _ | .link _ _ => some s.puts

/-- One event. -/
def step (sha256 : StreamingHash) (s : Clients) : ClientEvent → Option Clients
  | .start op => (s.putsWith op).map fun puts => ⟨s.bucket, s.calls ++ [op.call], puts⟩
  | .advance i =>
      match s.calls[i]?.bind (·.advance sha256 s.bucket) with
      | some (b, c) => some ⟨b, s.calls.set i c, s.puts⟩
      | none => none
  | .fail i =>
      match s.calls[i]?.bind (·.fail) with
      | some c => some ⟨s.bucket, s.calls.set i c, s.puts⟩
      | none => none

/-- No call has anything left to do. -/
def Quiet (s : Clients) : Prop := ∀ c ∈ s.calls, c.pending = false

instance (s : Clients) : Decidable s.Quiet := inferInstanceAs (Decidable (∀ c ∈ s.calls, _))

end Clients

/-- The name of the object a call writes or deletes. -/
def Op.writes : Op → Option String
  | .put call => some call.objMeta.name
  | .delete name => some name
  | _ => none

/-- The name of the object an update reads. -/
def Op.updates : Op → Option String
  | .update name _ => some name
  | _ => none

/-- The name of the object an update renames. -/
def Op.renames : Op → Option String
  | .update name change => if change.name.getD name ≠ name then some name else none
  | _ => none

/-- Two calls that must not overlap: an update and a put or delete of the same object, or an update
that renames the object and another update of it. -/
def Op.Clash (a b : Op) : Prop :=
  (a.updates.isSome ∧ a.updates = b.writes) ∨ (a.renames.isSome ∧ a.renames = b.updates)

instance (a b : Op) : Decidable (a.Clash b) := inferInstanceAs (Decidable (_ ∨ _))

/-- A call is made only while no call it clashes with is under way, and none fails halfway. -/
def Clients.Apart (s : Clients) : ClientEvent → Prop
  | .start op => ∀ c ∈ s.calls, c.pending → ¬ op.Clash c.op ∧ ¬ c.op.Clash op
  | .advance _ => True
  | .fail i => ∀ c ∈ s.calls[i]?, c.halfway = false

instance (s : Clients) : (e : ClientEvent) → Decidable (s.Apart e)
  | .start _ => inferInstanceAs (Decidable (∀ c ∈ s.calls, _))
  | .advance _ => inferInstanceAs (Decidable True)
  | .fail i => inferInstanceAs (Decidable (∀ c ∈ s.calls[i]?, _))

end NatsClient.ObjectStore
