import NatsClient.JetStream.StreamState

/-!
# A bucket

Model of `Bucket` (`kv.ts`), one call at a time: keys and their codec, the subjects of a bucket, the
requests that `put`, `get`, `delete` and `purge` make, the filters of `watch`, `history` and
`keys`, and the entries that are made of stored messages.

A call is cut at its request: what it sends, or the exception it throws in front of it, and what it
makes of the answer.
-/

set_option autoImplicit false

namespace NatsClient.Kv

open NatsClient.JetStream

/-- `OperationType`. -/
inductive Operation where
  | PUT
  | DEL
  | PURGE
deriving DecidableEq, Repr

/-- `KvCodec<string>`. -/
structure KeyCodec where
  encode : Text → Text
  decode : Text → Text

/-- `NoopKvCodecs().key`. -/
def noopCodec : KeyCodec := ⟨id, id⟩

/-- What the client puts into a message: its payload and the header `KV-Operation`. -/
structure Body where
  data : List UInt8
  operation : Option Operation
deriving DecidableEq, Repr

abbrev Msg := StoredMsg Body
abbrev Stream := StreamState Body

/-! ## Keys -/

/-- `\w`. -/
def isWord (c : Char) : Bool := c.isAlphanum || c = '_'

/-- The class of `validKeyRe`. -/
def isKeyChar (c : Char) : Bool := c = '-' || c = '/' || c = '=' || c = '.' || isWord c

/-- The class of `validSearchKey`. -/
def isSearchChar (c : Char) : Bool := isKeyChar c || c = '>' || c = '*'

/-- The exception of the checks. -/
def invalidKey (k : Text) : Text := "invalid key: ".toList ++ k

/-- `validateKey(k)`; `validateSearchKey(k)` is the same with another class. -/
def validate (ok : Char → Bool) (k : Text) : Except Text Unit :=
  if k.head? = some '.' ∨ k.getLast? = some '.' ∨ k = [] ∨ ¬ k.all ok then .error (invalidKey k)
  else .ok ()

def validateKey (k : Text) : Except Text Unit := validate isKeyChar k

def validateSearchKey (k : Text) : Except Text Unit := validate isSearchChar k

/-- The loop of `hasWildcards` over the chunks of `k`. -/
def chunksHaveWildcards (k : Text) : Bool → List Text → Except Text Bool
  | found, [] => .ok found
  | found, chunk :: chunks =>
      if chunk = ['*'] then chunksHaveWildcards k true chunks
      else if chunk = ['>'] then
        if chunks ≠ [] then .error (invalidKey k) else chunksHaveWildcards k true chunks
      else chunksHaveWildcards k found chunks

/-- `hasWildcards(k)`. -/
def hasWildcards (k : Text) : Except Text Bool :=
  if k.head? = some '.' ∨ k.getLast? = some '.' then .error (invalidKey k)
  else chunksHaveWildcards k false (tokens k)

/-! ## The bucket -/

/-- `mirror` of the configuration of the stream: its name, and the API prefix where it is
external. -/
structure Mirror where
  name : Text
  api : Option Text
deriving DecidableEq, Repr

/-- The fields of `Bucket` that its methods go by. -/
structure Bucket where
  apiPrefix : Text
  editPrefix : Text
  useJsPrefix : Bool
  codec : KeyCodec
  subjectPrefix : Text
  subjectPrefix_ne : subjectPrefix ≠ []
  subjectPrefix_literal : Literal subjectPrefix

/-- `mirror.name` without `KV_`. -/
def withoutKvPrefix (name : Text) : Text :=
  if "KV_".toList <+: name then name.drop 3 else name

namespace Bucket

theorem literal_kv {name : Text} (h : Literal name) : Literal ("$KV.".toList ++ name) := by
  constructor
  · intro hmem
    rcases List.mem_append.1 hmem with hmem | hmem
    · revert hmem
      decide
    · exact h.1 hmem
  · intro hmem
    rcases List.mem_append.1 hmem with hmem | hmem
    · revert hmem
      decide
    · exact h.2 hmem

theorem literal_drop {name : Text} (h : Literal name) (n : Nat) : Literal (name.drop n) :=
  ⟨fun hmem => h.1 (List.mem_of_mem_drop hmem), fun hmem => h.2 (List.mem_of_mem_drop hmem)⟩

/-- `initializePrefixes(info)` without a mirror. -/
def initializePrefixes (bucket apiPrefix : Text) (codec : KeyCodec) (h : Literal bucket) :
    Bucket where
  apiPrefix := apiPrefix
  editPrefix := []
  useJsPrefix := apiPrefix ≠ "$JS.API".toList
  codec := codec
  subjectPrefix := "$KV.".toList ++ bucket
  subjectPrefix_ne := List.cons_ne_nil _ _
  subjectPrefix_literal := literal_kv h

/-- `initializePrefixes(info)` of a mirror. -/
def initializeMirror (bucket apiPrefix : Text) (codec : KeyCodec) (h : Literal bucket)
    (mirror : Mirror) (hname : Literal mirror.name) : Bucket :=
  let b := initializePrefixes bucket apiPrefix codec h
  match mirror.api with
  | some [] | none => { b with editPrefix := b.subjectPrefix }
  | some api =>
      { b with
        useJsPrefix := false
        editPrefix := api ++ ".$KV.".toList ++ withoutKvPrefix mirror.name
        subjectPrefix := "$KV.".toList ++ mirror.name.drop 3
        subjectPrefix_ne := List.cons_ne_nil _ _
        subjectPrefix_literal := literal_kv (literal_drop hname 3) }

/-- The bucket `b`, without a mirror, under the default API prefix. -/
def plain (codec : KeyCodec) : Bucket :=
  initializePrefixes "b".toList "$JS.API".toList codec (by decide)

/-- `subjectForKey(k, edit)`. -/
def subjectForKey (b : Bucket) (k : Text) (edit : Bool) : Text :=
  let builder :=
    if edit then
      (if b.useJsPrefix then [b.apiPrefix] else []) ++
        [if b.editPrefix ≠ [] then b.editPrefix else b.subjectPrefix]
    else if b.subjectPrefix ≠ [] then [b.subjectPrefix]
    else []
  List.intercalate ['.'] (builder ++ [k])

/-- `fullKeyName(k)`; a bucket has a prefix. -/
def fullKeyName (b : Bucket) (k : Text) : Text := b.subjectPrefix ++ '.' :: k

/-- `prefixLen`. -/
def prefixLen (b : Bucket) : Nat := b.subjectPrefix.length + 1

/-- One round of the loops of `encodeKey` and `decodeKey`: wildcards are left alone. -/
def mapToken (f : Text → Text) (t : Text) : Text := if t = ['>'] ∨ t = ['*'] then t else f t

/-- `encodeKey(key)`. -/
def encodeKey (b : Bucket) (key : Text) : Text :=
  List.intercalate ['.'] ((tokens key).map (mapToken b.codec.encode))

/-- `decodeKey(ekey)`. -/
def decodeKey (b : Bucket) (ekey : Text) : Text :=
  List.intercalate ['.'] ((tokens ekey).map (mapToken b.codec.decode))

end Bucket

/-! ## Entries -/

/-- `KvEntry`. -/
structure KvEntry where
  key : Text
  value : List UInt8
  created : Nat
  revision : Nat
  operation : Operation
deriving DecidableEq, Repr

namespace Bucket

/-- `smToEntry(sm)`, of a message that was asked for: the key is the rest of the subject. -/
def smToEntry (b : Bucket) (sm : Msg) : KvEntry where
  key := sm.subject.drop b.prefixLen
  value := sm.body.data
  created := sm.time
  revision := sm.seq
  operation := sm.body.operation.getD .PUT

/-- `jmToEntry(jm)`, of a message that a consumer delivers: the key is decoded. -/
def jmToEntry (b : Bucket) (jm : Msg) : KvEntry where
  key := b.decodeKey (jm.subject.drop b.prefixLen)
  value := jm.body.data
  created := jm.time
  revision := jm.seq
  operation := jm.body.operation.getD .PUT

/-! ## Requests -/

/-- `put(k, data, opts)` up to its `publish`. -/
def put (b : Bucket) (k : Text) (data : List UInt8) (previousSeq : Option Nat) :
    Except Text (Publication Body) := do
  let ek := b.encodeKey k
  validateKey ek
  return ⟨b.subjectForKey ek true, ⟨data, none⟩, false, previousSeq⟩

/-- `_doDeleteOrPurge(k, op, opts)` up to its `publish`; `0` is no expectation. -/
def doDeleteOrPurge (b : Bucket) (k : Text) (op : Operation) (previousSeq : Option Nat) :
    Except Text (Publication Body) := do
  let ek := b.encodeKey k
  validateKey ek
  return ⟨b.subjectForKey ek true, ⟨[], some op⟩, op = .PURGE, previousSeq.filter (· ≠ 0)⟩

/-- `get(k)` up to its request: the subject whose last message it asks for. -/
def getRequest (b : Bucket) (k : Text) : Except Text Text := do
  let ek := b.encodeKey k
  validateKey ek
  return b.subjectForKey ek false

/-- What `get(k)` makes of the message it was answered with. -/
def getResponse (b : Bucket) (k : Text) (sm : Option Msg) : Option KvEntry :=
  match sm with
  | none => none
  | some sm =>
      let ke := b.smToEntry sm
      if ke.key ≠ b.encodeKey k then none else some ke

/-- The filter of `_buildCC` for one key. -/
def filterFor (b : Bucket) (k : Text) : Except Text Text := do
  let ek := b.encodeKey k
  validateSearchKey k
  return b.fullKeyName ek

end Bucket

end NatsClient.Kv
