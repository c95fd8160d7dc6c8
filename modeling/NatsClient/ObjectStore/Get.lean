import NatsClient.ObjectStore.Put

/-!
# Getting an object

Model of `get` and `getBlob` (`objectstore.ts`). The reader of an object is an ordered consumer of
its chunks (`Reader.onMsg`): each message carries how many are behind it, and the one with none
behind it ends the stream, after the digest was checked.

`put_get`: whatever the pieces of the source, a put stores the partition of the bytes and the entry
that describes them, and a get gives the bytes back and ends without an error, also where there are
none.
-/

set_option autoImplicit false

namespace NatsClient.ObjectStore

open Foundation Wire

/-- The state of a `ReadableStream`. -/
inductive StreamState where
  | readable
  | closed
  | errored (error : String)
deriving DecidableEq, Repr

/-- A `ReadableStream`: the pieces enqueued so far, and its state. -/
structure ReadableStream where
  pieces : List Bytes
  state : StreamState
deriving DecidableEq, Repr

/-- What the reader uses of a message: `data` and `info.pending`. -/
structure JsMsg where
  data : Bytes
  pending : Nat
deriving DecidableEq, Repr

/-- The messages of a consumer: the number of those still to come stands in each. -/
def withPending : List Bytes → List JsMsg
  | [] => []
  | data :: rest => ⟨data, rest.length⟩ :: withPending rest

/-- What an ordered consumer of a nuid's chunks is given. -/
def Bucket.consume (b : Bucket) (id : String) : List JsMsg := withPending (b.chunks id)

/-- `${digest}` of a byte array. -/
def bytesText (bytes : Bytes) : String := ",".intercalate (bytes.map fun byte => toString byte)

/-- The loop of `get` over the messages: the hash, and the stream it enqueues to. -/
structure Reader (sha256 : StreamingHash) where
  sha : sha256.State
  data : ReadableStream

namespace Reader

variable {sha256 : StreamingHash}

/-- The loop in front of the first message. -/
def start : Reader sha256 := ⟨sha256.create, ⟨[], .readable⟩⟩

/-- A message: `digest` is the parsed digest of the entry and `infoDigest` its text. -/
def onMsg (digest : Bytes) (infoDigest : String) (r : Reader sha256) (jm : JsMsg) : Reader sha256 :=
  -- the stream ended with `unsubscribe()`: no message comes behind it
  if r.data.state ≠ .readable then r
  else
    let r : Reader sha256 :=
      if 0 < jm.data.length then
        ⟨sha256.update r.sha jm.data, ⟨r.data.pieces ++ [jm.data], r.data.state⟩⟩
      else r
    if jm.pending = 0 then
      let state : StreamState :=
        if !checkSha256 digest (sha256.digest r.sha) then
          .errored ("received a corrupt object, digests do not match received: " ++ infoDigest
            ++ " calculated " ++ bytesText digest)
        else .closed
      ⟨r.sha, ⟨r.data.pieces, state⟩⟩
    else r

end Reader

/-- What `get` settles with: `null`, an error, the call it goes on with on the bucket a link names,
or the object with its stream. The promise `error` of the object resolves without an error in all of
them: a wrong digest is an error of the stream. -/
inductive GetResult where
  | null
  | rejected (error : String)
  | follow (bucket name : String)
  | object (info : ServerObjectInfo) (data : ReadableStream)
deriving DecidableEq, Repr

/-- `digest.startsWith(digestType)`, and the text behind. -/
def digestText (digest : String) : Option String :=
  if digestType.toList.isPrefixOf digest.toList then some (String.ofList (digest.toList.drop 8))
  else none

/-- `get(name)`, with the stream as it is when all messages of the consumer were read. -/
def get (sha256 : StreamingHash) (b : Bucket) (name : String) : GetResult :=
  match b.rawInfo name with
  | .error e => .rejected e
  | .ok none => .null
  | .ok (some info) =>
      if info.isDeleted then .null
      else
        match info.link with
        | some link =>
            let ln := link.name.getD ""
            -- the link of a whole bucket
            if ln = "" then .rejected "link is a bucket" else .follow link.bucket ln
        | none =>
            match info.digest with
            | none => .rejected "TypeError"
            | some infoDigest =>
                match digestText infoDigest with
                | none => .rejected ("unknown digest type: " ++ infoDigest)
                | some text =>
                    match parseSha256 text with
                    | .error e => .rejected e
                    | .ok none => .rejected ("unable to parse digest: " ++ infoDigest)
                    | .ok (some digest) =>
                        -- an empty object has no chunks, and no consumer is made
                        if info.size = some 0 then .object info ⟨[[]], .closed⟩
                        else
                          let r := (b.consume info.nuidText).foldl (Reader.onMsg digest infoDigest)
                            (Reader.start : Reader sha256)
                          .object info r.data

/-- What `getBlob` settles with. -/
inductive BlobResult where
  | null
  | rejected (error : String)
  | follow (bucket name : String)
  | bytes (data : Bytes)
  | pending
deriving DecidableEq, Repr

/-- `fromReadableStream(rs)`: the pieces are filled into a buffer, which is drained at the end. -/
def fromReadableStream (rs : ReadableStream) : BlobResult :=
  match rs.state with
  | .readable => .pending
  | .errored e => .rejected e
  | .closed =>
      let buf :=
        rs.pieces.foldl (fun buf value => if value.length ≠ 0 then buf.fill value [] else buf)
        DataBuffer.empty
      .bytes (buf.drain none).1

/-- `getBlob(name)`. -/
def getBlob (sha256 : StreamingHash) (b : Bucket) (name : String) : BlobResult :=
  match get sha256 b name with
  | .null => .null
  | .rejected e => .rejected e
  | .follow bucket name => .follow bucket name
  | .object _ data => fromReadableStream data

/-- What `get` reads under a name that has an entry. -/
theorem rawInfo_of_latest {b : Bucket} {name : String} {info : ServerObjectInfo} (hname : name ≠ "")
    (h : b.latest name = some info) :
    ∃ seq, b.rawInfo name = .ok (some { info with revision := some seq }) := by
  unfold Bucket.latest at h
  cases hsubject : b.metaSubject name with
  | none =>
      rw [hsubject] at h
      cases h
  | some subject =>
      rw [hsubject, Option.bind_some] at h
      split at h
      · rename_i seq subject' stored hlast
        obtain rfl : stored = info := Option.some.inj h
        exact ⟨seq, Bucket.rawInfo_of_last hname hsubject hlast rfl⟩
      · cases h

section

variable {sha256 : StreamingHash} {digest : Bytes} {infoDigest : String}

/-- **The reader enqueues the chunks and checks the hash of their bytes.** -/
theorem Reader.read_spec (r : Reader sha256) (cs : List Bytes) (hne : cs ≠ [])
    (hpos : ∀ c ∈ cs, 0 < c.length) (hreadable : r.data.state = .readable)
    (hdigest : sha256.digest (cs.foldl sha256.update r.sha) = digest) :
    ((withPending cs).foldl (Reader.onMsg digest infoDigest) r).data =
      ⟨r.data.pieces ++ cs, .closed⟩ := by
  induction cs generalizing r with
  | nil => exact absurd rfl hne
  | cons c cs ih =>
      have hc : 0 < c.length := hpos c (List.mem_cons_self ..)
      cases cs with
      | nil =>
          -- the last message: the digest of all of them is checked
          have hcheck : checkSha256 digest (sha256.digest (sha256.update r.sha c)) = true :=
            (checkSha256_iff _ _).2 hdigest.symm
          simp only [withPending, List.foldl_cons, List.foldl_nil, Reader.onMsg, hreadable, hc,
            List.length_nil, hcheck, ne_eq, not_true_eq_false, ↓reduceIte, Bool.not_true,
            Bool.false_eq_true]
      | cons d rest =>
          have hnext : Reader.onMsg digest infoDigest r ⟨c, (d :: rest).length⟩ =
              ⟨sha256.update r.sha c, ⟨r.data.pieces ++ [c], .readable⟩⟩ := by
            simp only [Reader.onMsg, hreadable, hc, List.length_cons, ne_eq, not_true_eq_false,
              ↓reduceIte, Nat.succ_ne_zero]
          rw [withPending, List.foldl_cons, hnext]
          refine (ih _ (List.cons_ne_nil d rest)
            (fun x hx => hpos x (List.mem_cons_of_mem c hx)) rfl hdigest).trans ?_
          rw [List.append_assoc, List.singleton_append]

theorem digestText_append (text : String) : digestText (digestType ++ text) = some text := by
  have hprefix : digestType.toList.isPrefixOf (digestType ++ text).toList = true := by
    rw [String.toList_append, List.isPrefixOf_iff_prefix]
    exact List.prefix_append _ _
  have hdrop : (digestType ++ text).toList.drop 8 = text.toList := by
    rw [String.toList_append]
    exact @List.drop_left _ digestType.toList text.toList
  rw [digestText, if_pos hprefix, hdrop, String.ofList_toList]

/-- The bytes of a stream that ended are what `fromReadableStream` gives. -/
theorem fromReadableStream_closed (pieces : List Bytes) :
    fromReadableStream ⟨pieces, .closed⟩ = .bytes pieces.flatten := by
  have hfill : ∀ buf : DataBuffer,
      (pieces.foldl (fun buf value => if value.length ≠ 0 then buf.fill value [] else buf)
        buf).contents = buf.contents ++ pieces.flatten := by
    induction pieces with
    | nil =>
        intro buf
        rw [List.flatten_nil, List.append_nil]
        rfl
    | cons value pieces ih =>
        intro buf
        rw [List.foldl_cons, ih, List.flatten_cons, ← List.append_assoc]
        congr 1
        split
        · rw [DataBuffer.contents_fill, List.flatten_nil, List.append_nil]
        · next hzero =>
            rw [List.length_eq_zero_iff.1 (not_not.1 hzero), List.append_nil]
  simp only [fromReadableStream, (DataBuffer.drain_all _).1, hfill, DataBuffer.contents_empty,
    List.nil_append]

/-- The stream a get returns on the entry of a put, whose chunks are those of the writer. -/
theorem get_stored {b b' : Bucket} {call : PutCall} {seq : Nat}
    (hchunks : b'.chunks call.id = (call.writer : Writer sha256).published)
    (hinfo : b'.rawInfo call.objMeta.name = .ok (some (call.stored sha256 b seq)))
    (hlink : call.objMeta.options.bind (·.link) = none) :
    ∃ data, get sha256 b' call.objMeta.name = .object (call.stored sha256 b seq) data ∧
      data.pieces.flatten = call.rs.flatten ∧ data.state = .closed := by
  have hwrote : (call.writer : Writer sha256).Wrote call.maxChunk call.rs.flatten :=
    Writer.write_spec call.maxChunk call.rs
  have hdigest : (call.stored sha256 b seq).digest =
      some (digestType ++ base64UrlPadded (sha256.hash call.rs.flatten)) := by
    rw [← hwrote.digest_eq]
    rfl
  have hdeleted : (call.stored sha256 b seq).isDeleted = false := rfl
  have hnolink : (call.stored sha256 b seq).link = none := hlink
  have hsize : (call.stored sha256 b seq).size = some call.rs.flatten.length := by
    rw [← hwrote.size_eq]
    rfl
  simp only [get, hinfo, hdeleted, Bool.false_eq_true, ↓reduceIte, hnolink, hdigest,
    digestText_append, parseSha256_encode, hsize, Option.some.injEq]
  cases hbytes : call.rs.flatten with
  | nil =>
      -- no bytes: the stream is not read at all
      exact ⟨⟨[[]], .closed⟩, if_pos rfl, rfl, rfl⟩
  | cons byte rest =>
      have hne : (call.writer : Writer sha256).published ≠ [] := by
        intro hnil
        have hflatten := hwrote.partition.flatten_eq
        rw [hnil, hbytes] at hflatten
        cases hflatten
      have hpos : ∀ c ∈ (call.writer : Writer sha256).published, 0 < c.length := fun c hc =>
        hwrote.partition.length_pos hc
      have hsha : sha256.digest ((call.writer : Writer sha256).published.foldl sha256.update
          sha256.create) = sha256.hash (byte :: rest) := by
        rw [sha256.digest_updates, hwrote.partition.flatten_eq, hbytes]
      have hconsume : b'.consume (call.stored sha256 b seq).nuidText =
          withPending (call.writer : Writer sha256).published := by
        rw [← hchunks]
        rfl
      refine ⟨⟨(call.writer : Writer sha256).published, .closed⟩, ?_, ?_, rfl⟩
      · refine (if_neg (Nat.succ_ne_zero rest.length)).trans ?_
        rw [hconsume, Reader.read_spec Reader.start _ hne hpos rfl hsha]
        rfl
      · rw [hwrote.partition.flatten_eq, hbytes]

/-- **An object is got as it was put.** For every split of the bytes, a put whose publishes succeed
stores the partition of the bytes under its nuid and the entry that describes them, and a get of the
entry, unless it is a link, gives the bytes and ends without an error. -/
theorem put_get (sha256 : StreamingHash) (b : Bucket) (call : PutCall)
    (old : Option ServerObjectInfo) (metaSubj : String)
    (hold : b.rawInfo call.objMeta.name = .ok old)
    (hsubj : b.metaSubject call.objMeta.name = some metaSubj)
    (hrevision : ∀ r ∈ call.previousRevision, r = b.lastSeqOn metaSubj) (hfresh : b.Fresh call.id) :
    ∃ b' info, putInto sha256 b call = (b', .ok info) ∧
      IsPartition call.maxChunk call.rs.flatten (b'.chunks call.id) ∧
      info.size = some call.rs.flatten.length ∧
      info.chunks = some (b'.chunks call.id).length ∧
      info.digest = some (digestType ++ base64UrlPadded (sha256.hash call.rs.flatten)) ∧
      (call.objMeta.options.bind (·.link) = none →
        ∃ data, get sha256 b' call.objMeta.name = .object info data ∧
          data.pieces.flatten = call.rs.flatten ∧ data.state = .closed ∧
          getBlob sha256 b' call.objMeta.name = .bytes call.rs.flatten) := by
  obtain ⟨b', seq, hput, _, hchunks, hinfo⟩ :=
    @putInto_ok sha256 _ _ _ _ hold hsubj hrevision hfresh
  have hwrote : (call.writer : Writer sha256).Wrote call.maxChunk call.rs.flatten :=
    Writer.write_spec call.maxChunk call.rs
  refine ⟨b', call.stored sha256 b seq, hput, ?_, ?_, ?_, ?_, ?_⟩
  · rw [hchunks]
    exact hwrote.partition
  · rw [← hwrote.size_eq]
    rfl
  · rw [hchunks, ← hwrote.chunks_eq]
    rfl
  · rw [← hwrote.digest_eq]
    rfl
  · intro hlink
    obtain ⟨⟨pieces, state⟩, hget, hbytes, hclosed⟩ := get_stored hchunks hinfo hlink
    simp only at hbytes hclosed
    subst hclosed
    refine ⟨_, hget, hbytes, rfl, ?_⟩
    rw [getBlob, hget, ← hbytes]
    exact fromReadableStream_closed pieces

/-- SHA-256 of the three bytes of `abc`. -/
def digestOfAbc : Bytes :=
  [0xba, 0x78, 0x16, 0xbf, 0x8f, 0x01, 0xcf, 0xea, 0x41, 0x41, 0x40, 0xde, 0x5d, 0xae, 0x22, 0x23,
    0xb0, 0x03, 0x61, 0xa3, 0x96, 0x17, 0x7a, 0x9c, 0xb4, 0x10, 0xff, 0x61, 0xf2, 0x00, 0x15, 0xad]

/-- A streaming hash that is SHA-256 on `abc`. -/
def hashOfAbc : StreamingHash where
  State := Bytes
  create := []
  update sha piece := sha ++ piece
  digest sha := if sha = [97, 98, 99] then digestOfAbc else List.replicate 32 0
  hash bs := if bs = [97, 98, 99] then digestOfAbc else List.replicate 32 0
  digest_updates := by
    intro pieces
    have hfold : ∀ sha : Bytes, pieces.foldl (fun sha piece => sha ++ piece) sha =
        sha ++ pieces.flatten := by
      induction pieces with
      | nil => simp
      | cons piece pieces ih => simp [ih]
    rw [hfold, List.nil_append]
  length_hash := by
    intro bs
    split <;> rfl

/-- A put of `abc`, from three pieces of which one is empty, in chunks of two bytes. -/
def putAbc : PutCall :=
  ⟨⟨"a", none, none, some ⟨none, some 2⟩, none⟩, [[97], [], [98, 99]], none, some 1024, "N",
    "2025-01-01T00:00:00.000Z"⟩

theorem put_get_abc :
    ∃ b' info, putInto hashOfAbc ⟨"b", [], 0⟩ putAbc = (b', .ok info) ∧
      IsPartition putAbc.maxChunk putAbc.rs.flatten (b'.chunks putAbc.id) ∧
      info.size = some putAbc.rs.flatten.length ∧
      info.chunks = some (b'.chunks putAbc.id).length ∧
      info.digest = some (digestType ++ base64UrlPadded (hashOfAbc.hash putAbc.rs.flatten)) ∧
      (putAbc.objMeta.options.bind (·.link) = none →
        ∃ data, get hashOfAbc b' putAbc.objMeta.name = .object info data ∧
          data.pieces.flatten = putAbc.rs.flatten ∧ data.state = .closed ∧
          getBlob hashOfAbc b' putAbc.objMeta.name = .bytes putAbc.rs.flatten) :=
  put_get hashOfAbc ⟨"b", [], 0⟩ putAbc none "$O.b.M.YQ==" (by decide +kernel) (by decide +kernel)
    (by intro r hr; cases hr) (by intro m hm; cases hm)

/-- The digest of `abc`, as it stands in an entry. -/
example : base64UrlPadded (hashOfAbc.hash putAbc.rs.flatten) =
    "ungWv48Bz-pBQUDeXa4iI7ADYaOWF3qctBD_YfIAFa0=" := by decide +kernel

end

end NatsClient.ObjectStore
