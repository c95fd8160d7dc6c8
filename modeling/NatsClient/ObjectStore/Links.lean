import NatsClient.Foundation.Chain
import NatsClient.ObjectStore.Clients
import NatsClient.ObjectStore.Get

/-!
# Links between objects

Model of `get` (`objectstore.ts`) on the buckets of one server, where it goes on with the object
that a link names until it finds one that is no link. Any number of clients make the calls `put`,
`linkStore`, `delete`, `update` and `link` on the buckets; their stream operations come in any order
(`Stores.step`).

A link is written by `link`, which asks the info that it is given whether the object is deleted or a
link itself, and by `update`, which asks nothing. `get` does not notice that it goes round in a
circle.

* `settled_iff`: all calls of `get` settle, all along a run, exactly if no link is written to a
  place from which the links lead back to it;
* `settled_of_direct`: this is so where links are written to other places, without a link in them.
-/

set_option autoImplicit false

namespace NatsClient.ObjectStore

open Foundation Foundation.Chain Wire

/-- `validateBucket(name)`, which throws for any other name. -/
def isBucketName (name : String) : Bool :=
  name ≠ "" && name.toList.all fun c => c = '-' || c = '_' || c.isAlphanum

/-- A call on an object store. -/
inductive StoreOp where
  | put (call : PutCall)
  | linkStore (name bucket : String) (maxPayload : Option Nat) (id now : String)
  | delete (name : String)
  | update (name : String) (change : ObjectStoreUpdate)
  | link (name : String) (info : ServerObjectInfo)

/-- What a call does behind its first checks; `none` where they reject it. -/
def StoreOp.op : StoreOp → Option Op
  | .put call => if (call.objMeta.options.bind (·.link)).isSome then none else some (.put call)
  | .linkStore name bucket maxPayload id now =>
      if name = "" then none
      else
        let options : ObjectStoreMetaOptions := ⟨some ⟨bucket, none⟩, none⟩
        some (.put ⟨⟨name, none, none, some options, none⟩, [], none, maxPayload, id, now⟩)
  | .delete name => some (.delete name)
  | .update name change => some (.update name change)
  | .link name info => some (.link name info)

/-- The buckets by name, where one that does not exist is empty, and the calls made so far with the
name of their bucket. -/
structure Stores where
  buckets : String → Bucket
  calls : List (String × Call)

/-- What happens: a call is made on a store, the `i`-th call does its next stream operation, or it
fails. -/
inductive StoresEvent where
  | start (bucket : String) (op : StoreOp)
  | advance (i : Nat)
  | fail (i : Nat)

namespace Stores

/-- Nothing was stored yet. -/
def init : Stores := ⟨fun name => ⟨name, [], 0⟩, []⟩

/-- One event. -/
def step (sha256 : StreamingHash) (s : Stores) : StoresEvent → Option Stores
  | .start bucket op =>
      -- a store is created with a valid name only
      if isBucketName bucket then
        match op.op with
        | some op => some ⟨s.buckets, s.calls ++ [(bucket, op.call)]⟩
        | none => some s
      else none
  | .advance i =>
      match s.calls[i]? with
      | some (bucket, c) =>
          match c.advance sha256 (s.buckets bucket) with
          | some (b, c') => some ⟨Function.update s.buckets bucket b, s.calls.set i (bucket, c')⟩
          | none => none
      | none => none
  | .fail i =>
      match s.calls[i]? with
      | some (bucket, c) =>
          match c.fail with
          | some c' => some ⟨s.buckets, s.calls.set i (bucket, c')⟩
          | none => none
      | none => none

/-- `get(name)` on a store, over the links; `none` where it is not done after `fuel` objects. -/
def getAll (sha256 : StreamingHash) (s : Stores) : Nat → String → String → Option GetResult
  | 0, _, _ => none
  | fuel + 1, bucket, name =>
      match get sha256 (s.buckets bucket) name with
      | .follow other ln =>
          -- the store of another bucket is created, with its name checked
          if other ≠ bucket ∧ isBucketName other = false then
            some (.rejected ("invalid bucket name: " ++ other))
          else s.getAll sha256 fuel other ln
      | r => some r

/-- Every `get` settles: with a result, `null` or an error. -/
def Settled (sha256 : StreamingHash) (s : Stores) : Prop :=
  ∀ bucket name, ∃ fuel r, s.getAll sha256 fuel bucket name = some r

end Stores

/-! ## The links of a bucket -/

/-- Where an entry of a bucket sends `get`. -/
def ServerObjectInfo.place (bucket : String) (info : ServerObjectInfo) : Option (String × String) :=
  if info.isDeleted then none
  else
    match info.link with
    | none => none
    | some link =>
        let ln := link.name.getD ""
        if ln = "" ∨ (link.bucket ≠ bucket ∧ isBucketName link.bucket = false) then none
        else some (link.bucket, ln)

/-- Where a name of a bucket sends `get`. -/
def Bucket.linkAt (b : Bucket) (bucket name : String) : Option (String × String) :=
  if name = "" then none else (b.latest name).bind (·.place bucket)

/-- The links of all buckets. -/
def Stores.next (s : Stores) (p : String × String) : Option (String × String) :=
  (s.buckets p.1).linkAt p.1 p.2

/-- The entry that a call is going to publish, by which it may write a link. -/
def Call.links : Call → Option (String × ServerObjectInfo)
  | .update _ _ (.publishing info) => some (info.name, info)
  | .link name info .publishing => some (name, linkEntry name info)
  | _ => none

/-- A step does not write a link to a place from which the links lead to where it is written. -/
def Stores.Harmless (s : Stores) : StoresEvent → Prop
  | .advance i =>
      ∀ bucket c name info p, s.calls[i]? = some (bucket, c) → c.links = some (name, info) →
      info.place bucket = some p → ¬ Leads s.next p (bucket, name)
  | .start _ _ | .fail _ => True

section

variable {sha256 : StreamingHash} {b b' : Bucket} {bucket name n m subject : String}
    {info : ServerObjectInfo}

/-- `get` on an entry goes on with another object exactly if the entry sends it there. -/
theorem get_follow_iff (hraw : b.rawInfo name = .ok (some info)) (other ln : String) :
    get sha256 b name = .follow other ln ↔
      info.isDeleted = false ∧ ∃ link, info.link = some link ∧ link.name.getD "" = ln ∧ ln ≠ "" ∧
        link.bucket = other := by
  unfold get
  rw [hraw]
  simp only
  constructor
  · intro hget
    split at hget
    · cases hget
    · rename_i hlive
      split at hget
      · rename_i link hlink
        split at hget
        · cases hget
        · rename_i hne
          cases hget
          exact ⟨Bool.not_eq_true _ ▸ hlive, link, hlink, rfl, hne, rfl⟩
      · -- an object: there is no link in what comes out
        split at hget
        · cases hget
        · split at hget
          · cases hget
          · split at hget
            · cases hget
            · cases hget
            · split at hget <;> cases hget
  · rintro ⟨hlive, link, hlink, rfl, hne, rfl⟩
    rw [if_neg (by rw [hlive]; nofun), hlink]
    simp only
    rw [if_neg hne]

/-- A link that `get` follows is the one of the name. -/
theorem linkAt_of_follow {other ln : String} (hget : get sha256 b name = .follow other ln) :
    b.linkAt bucket name =
      if other ≠ bucket ∧ isBucketName other = false then none else some (other, ln) := by
  obtain ⟨info, hraw⟩ : ∃ info, b.rawInfo name = .ok (some info) := by
    unfold get at hget
    split at hget
    · cases hget
    · cases hget
    · exact ⟨_, ‹_›⟩
  obtain ⟨hname, -⟩ := Bucket.metaSubject_of_rawInfo hraw
  obtain ⟨hlive, link, hlink, hln, hne, hother⟩ := (get_follow_iff hraw other ln).1 hget
  obtain ⟨stored, seq, hlatest, rfl⟩ := Bucket.latest_of_rawInfo hraw
  have hlive : stored.isDeleted = false := hlive
  have hlink : stored.link = some link := hlink
  rw [Bucket.linkAt, if_neg hname, hlatest, Option.bind_some, ServerObjectInfo.place,
    if_neg (by rw [hlive]; nofun), hlink]
  simp only [hln, hother]
  by_cases hvalid : other ≠ bucket ∧ isBucketName other = false
  · rw [if_pos (Or.inr hvalid), if_pos hvalid]
  · rw [if_neg (not_or.2 ⟨hne, hvalid⟩), if_neg hvalid]

/-- `get` follows the link of a name. -/
theorem follow_of_linkAt {p : String × String} (h : b.linkAt bucket name = some p) :
    get sha256 b name = .follow p.1 p.2 := by
  unfold Bucket.linkAt at h
  split at h
  · cases h
  · rename_i hname
    obtain ⟨stored, hlatest, hplace⟩ := Option.bind_eq_some_iff.1 h
    obtain ⟨seq, hraw⟩ := rawInfo_of_latest hname hlatest
    apply (get_follow_iff hraw p.1 p.2).2
    unfold ServerObjectInfo.place at hplace
    split at hplace
    · cases hplace
    · rename_i hlive
      split at hplace
      · cases hplace
      · rename_i link hlink
        simp only at hplace
        split at hplace
        · cases hplace
        · rename_i hln
          cases hplace
          exact ⟨Bool.not_eq_true _ ▸ hlive, link, hlink, rfl, fun heq => hln (Or.inl heq), rfl⟩

/-- Each turn of `get` goes on where the link of the name says, or is the last. -/
theorem getAll_succ (s : Stores) (fuel : Nat) (bucket name : String) :
    match s.next (bucket, name) with
    | some p => s.getAll sha256 (fuel + 1) bucket name = s.getAll sha256 fuel p.1 p.2
    | none => ∃ r, s.getAll sha256 (fuel + 1) bucket name = some r := by
  cases hget : get sha256 (s.buckets bucket) name with
  | follow other ln =>
      rw [Stores.next, linkAt_of_follow hget]
      by_cases hvalid : other ≠ bucket ∧ isBucketName other = false
      · rw [if_pos hvalid]
        refine ⟨.rejected ("invalid bucket name: " ++ other), ?_⟩
        simp only [Stores.getAll, hget]
        rw [if_pos hvalid]
      · rw [if_neg hvalid]
        simp only [Stores.getAll, hget]
        rw [if_neg hvalid]
  | null | rejected | object =>
      cases hnext : s.next (bucket, name) with
      | some p =>
          rw [follow_of_linkAt hnext] at hget
          cases hget
      | none =>
          simp only [Stores.getAll, hget]
          exact ⟨_, rfl⟩

/-- **`get` settles** exactly if the chain of links ends. -/
theorem settled_iff_ends (s : Stores) : s.Settled sha256 ↔ ∀ p, Ends s.next p := by
  constructor
  · rintro hsettled ⟨bucket, name⟩
    obtain ⟨fuel, r, hr⟩ := hsettled bucket name
    induction fuel generalizing bucket name with
    | zero => cases hr
    | succ fuel ih =>
        have hturn := @getAll_succ sha256 s fuel bucket name
        cases hnext : s.next (bucket, name) with
        | none => exact ends_of_none hnext
        | some p =>
            rw [hnext] at hturn
            exact ends_of_next hnext (ih p.1 p.2 (hturn.symm.trans hr))
  · intro hends bucket name
    have h := hends (bucket, name)
    generalize hp : (bucket, name) = p at h
    induction h generalizing bucket name with
    | intro p _ ih =>
        subst hp
        have hturn := fun fuel => @getAll_succ sha256 s fuel bucket name
        cases hnext : s.next (bucket, name) with
        | none =>
            simp only [hnext] at hturn
            exact ⟨1, hturn 0⟩
        | some p =>
            simp only [hnext] at hturn
            obtain ⟨fuel, r, hr⟩ := ih p hnext p.1 p.2 rfl
            exact ⟨fuel + 1, r, (hturn fuel).trans hr⟩

/-! ## What a stream operation does to the links -/

/-- At most one name of the bucket changes where it sends `get`: to where the entry does that is
published by a call that links, and else to nowhere. -/
def Relinks (bucket : String) (b b' : Bucket) (links : Option (String × ServerObjectInfo)) : Prop :=
  ∃ n, (∀ m, m ≠ n → b'.linkAt bucket m = b.linkAt bucket m) ∧
    match links with
    | some (name, info) => n = name ∧ b'.linkAt bucket n = info.place bucket
    | none => b'.linkAt bucket n = none ∨ b'.linkAt bucket n = b.linkAt bucket n

theorem linkAt_congr (h : b'.latest m = b.latest m) : b'.linkAt bucket m = b.linkAt bucket m := by
  rw [Bucket.linkAt, Bucket.linkAt, h]

theorem relinks_of_latest (h : ∀ m, b'.latest m = b.latest m) : Relinks bucket b b' none :=
  ⟨"", fun m _ => linkAt_congr (h m), Or.inr (linkAt_congr (h ""))⟩

theorem relinks_purge (hsubject : b.metaSubject n = some subject) :
    Relinks bucket b (b.purge subject) none := by
  have hlatest := Bucket.latest_purge hsubject
  refine ⟨n, fun m hm => linkAt_congr ?_, Or.inl ?_⟩
  · rw [hlatest, if_neg hm]
  · rw [Bucket.linkAt, hlatest, if_pos rfl]
    split <;> rfl

/-- A published entry is what the name has. -/
theorem linkAt_store (hsubject : b.metaSubject n = some subject) (rollup : Bool) :
    (∀ m, m ≠ n → (b.store subject (.json info) rollup).linkAt bucket m = b.linkAt bucket m) ∧
      (b.store subject (.json info) rollup).linkAt bucket n = if n = "" then none
      else info.place bucket := by
  have hlatest := @Bucket.latest_store b subject n rollup info hsubject
  refine ⟨fun m hm => linkAt_congr ?_, ?_⟩
  · rw [hlatest, if_neg hm]
  · rw [Bucket.linkAt, hlatest, if_pos rfl]
    rfl

/-- An entry that sends `get` nowhere. -/
theorem relinks_store_none (hsubject : b.metaSubject n = some subject) (rollup : Bool)
    (hplace : info.place bucket = none) :
    Relinks bucket b (b.store subject (.json info) rollup) none := by
  obtain ⟨hother, hself⟩ := @linkAt_store b bucket n subject info hsubject rollup
  refine ⟨n, hother, Or.inl (hself.trans ?_)⟩
  rw [hplace, ite_self]

/-- An entry that may be a link. -/
theorem relinks_store_some (hsubject : b.metaSubject n = some subject) (rollup : Bool)
    (hname : n ≠ "") : Relinks bucket b (b.store subject (.json info) rollup) (some (n, info)) := by
  obtain ⟨hother, hself⟩ := @linkAt_store b bucket n subject info hsubject rollup
  exact ⟨n, hother, rfl, hself.trans (if_neg hname)⟩

/-- What holds of a call on a bucket: a put writes no link to an object, a delete an entry that is
deleted, and a call that links has a name with a subject. -/
def Call.Sound (b : Bucket) : Call → Prop
  | .put call _ => ∀ link, call.objMeta.options.bind (·.link) = some link → link.name = none
  | .delete _ (.publishing info) => info.isDeleted = true
  | .update _ _ (.publishing info) =>
      info.name ≠ "" ∧ ∃ subject, b.metaSubject info.name = some subject
  | .link name _ .publishing => name ≠ "" ∧ ∃ subject, b.metaSubject name = some subject
  | _ => True

/-- The step of a call: its bucket keeps its name, it stays sound, and this is what becomes of the
links. -/
structure Advances (bucket : String) (b : Bucket) (c : Call) (b' : Bucket) (c' : Call) : Prop where
  name : b'.name = b.name
  sound : c'.Sound b'
  relinks : Relinks bucket b b' c.links

/-- A step that reads, or changes the chunks. -/
theorem advances_of_latest {c c' : Call} (hname : b'.name = b.name) (hsound : c'.Sound b')
    (hlinks : c.links = none) (hlatest : ∀ m, b'.latest m = b.latest m) :
    Advances bucket b c b' c' :=
  ⟨hname, hsound, hlinks ▸ relinks_of_latest hlatest⟩

theorem advances_put {call : PutCall} {stage stage' : PutStage}
    (hsound : (Call.put call stage).Sound b) (h : stage.advance sha256 b call = some (b', stage')) :
    Advances bucket b (.put call stage) b' (.put call stage') := by
  have hsame : ∀ stage, Advances bucket b (.put call stage) b (.put call stage') := fun _ =>
    advances_of_latest rfl hsound rfl fun _ => rfl
  cases stage with
  | reading =>
      simp only [PutStage.advance] at h
      split at h <;>
        · cases h
          exact hsame _
  | writing old rest =>
      cases rest with
      | cons payload rest =>
          cases h
          exact advances_of_latest rfl hsound rfl (Bucket.latest_store_chunk payload)
      | nil =>
          simp only [PutStage.advance] at h
          split at h
          · cases h
            exact hsame _
          · rename_i subject hsubject
            split at h
            · cases h
              exact hsame _
            · cases h
              refine ⟨rfl, hsound, relinks_store_none hsubject true ?_⟩
              -- the entry of a put has no link, or one to a store
              unfold ServerObjectInfo.place
              split
              · rfl
              · split
                · rfl
                · rename_i link hlink
                  simp only
                  rw [if_pos (Or.inl (by rw [hsound link hlink]; rfl))]
  | published old =>
      cases old <;>
        · cases h
          exact hsame _
  | purging old =>
      cases h
      exact advances_of_latest rfl hsound rfl Bucket.latest_purge_chunks
  | cleaning =>
      cases h
      exact advances_of_latest rfl hsound rfl Bucket.latest_purge_chunks
  | finished => cases h

theorem advances_delete {stage stage' : DeleteStage} (hsound : (Call.delete name stage).Sound b)
    (h : stage.advance b name = some (b', stage')) :
    Advances bucket b (.delete name stage) b' (.delete name stage') := by
  cases stage with
  | reading =>
      simp only [DeleteStage.advance] at h
      split at h <;>
        · cases h
          exact advances_of_latest rfl (by trivial) rfl fun _ => rfl
  | publishing info =>
      simp only [DeleteStage.advance] at h
      split at h
      · cases h
        exact advances_of_latest rfl trivial rfl fun _ => rfl
      · rename_i subject hsubject
        cases h
        refine ⟨rfl, trivial, relinks_store_none hsubject true ?_⟩
        have hdeleted : info.isDeleted = true := hsound
        rw [ServerObjectInfo.place, if_pos hdeleted]
  | purging info =>
      cases h
      exact advances_of_latest rfl trivial rfl Bucket.latest_purge_chunks
  | finished => cases h

theorem advances_update {change : ObjectStoreUpdate} {stage stage' : UpdateStage}
    (hsound : (Call.update name change stage).Sound b)
    (h : stage.advance b name change = some (b', stage')) :
    Advances bucket b (.update name change stage) b' (.update name change stage') := by
  cases stage with
  | reading =>
      simp only [UpdateStage.advance] at h
      split at h
      · rename_i info hread
        split at h
        · cases h
          exact advances_of_latest rfl trivial rfl fun _ => rfl
        · split at h
          · cases h
            exact advances_of_latest rfl trivial rfl fun _ => rfl
          · rename_i htarget
            cases h
            refine advances_of_latest rfl ?_ rfl fun _ => rfl
            -- the name stays, and was read
            show change.name.getD info.name ≠ "" ∧
                ∃ subject, b.metaSubject (change.name.getD info.name) = some subject
            rw [← not_not.1 htarget]
            exact Bucket.metaSubject_of_rawInfo hread
      · cases h
        exact advances_of_latest rfl trivial rfl fun _ => rfl
  | targeting info =>
      simp only [UpdateStage.advance] at h
      split at h
      · cases h
        exact advances_of_latest rfl trivial rfl fun _ => rfl
      · rename_i hread
        split at h
        · cases h
          exact advances_of_latest rfl (Bucket.metaSubject_of_rawInfo hread) rfl fun _ => rfl
        · cases h
          exact advances_of_latest rfl trivial rfl fun _ => rfl
      · rename_i hread
        cases h
        exact advances_of_latest rfl (Bucket.metaSubject_of_rawInfo hread) rfl fun _ => rfl
  | publishing info =>
      obtain ⟨hname, subject, hsubject⟩ := hsound
      simp only [UpdateStage.advance, hsubject] at h
      cases h
      refine ⟨rfl, ?_, relinks_store_some hsubject false hname⟩
      split <;> trivial
  | purging =>
      simp only [UpdateStage.advance] at h
      split at h
      · cases h
        exact advances_of_latest rfl trivial rfl fun _ => rfl
      · rename_i subject hsubject
        cases h
        exact ⟨rfl, trivial, relinks_purge hsubject⟩
  | finished => cases h

theorem advances_link {stage stage' : LinkStage} (hsound : (Call.link name info stage).Sound b)
    (h : stage.advance b name info = some (b', stage')) :
    Advances bucket b (.link name info stage) b' (.link name info stage') := by
  cases stage with
  | reading =>
      simp only [LinkStage.advance] at h
      split at h
      · cases h
        exact advances_of_latest rfl trivial rfl fun _ => rfl
      · split at h
        · cases h
          exact advances_of_latest rfl trivial rfl fun _ => rfl
        · rename_i dest hread
          cases h
          refine advances_of_latest rfl ?_ rfl fun _ => rfl
          split
          · exact Bucket.metaSubject_of_rawInfo hread
          · trivial
        · rename_i hread
          cases h
          exact advances_of_latest rfl (Bucket.metaSubject_of_rawInfo hread) rfl fun _ => rfl
  | publishing =>
      obtain ⟨hname, subject, hsubject⟩ := hsound
      simp only [LinkStage.advance, hsubject] at h
      cases h
      exact ⟨rfl, trivial, relinks_store_some hsubject false hname⟩
  | finished => cases h

/-- Each step of a sound call. -/
theorem Call.advances {c c' : Call} (hsound : c.Sound b) (h : c.advance sha256 b = some (b', c')) :
    Advances bucket b c b' c' := by
  cases c with
  | put call stage =>
      obtain ⟨⟨_, stage'⟩, hadvance, heq⟩ := Option.map_eq_some_iff.1 h
      cases heq
      exact advances_put hsound hadvance
  | delete name stage =>
      obtain ⟨⟨_, stage'⟩, hadvance, heq⟩ := Option.map_eq_some_iff.1 h
      cases heq
      exact advances_delete hsound hadvance
  | update name change stage =>
      obtain ⟨⟨_, stage'⟩, hadvance, heq⟩ := Option.map_eq_some_iff.1 h
      cases heq
      exact advances_update hsound hadvance
  | link name info stage =>
      obtain ⟨⟨_, stage'⟩, hadvance, heq⟩ := Option.map_eq_some_iff.1 h
      cases heq
      exact advances_link hsound hadvance

/-- A call stays sound whatever the others store. -/
theorem Call.sound_congr {c : Call} (hname : b'.name = b.name) (h : c.Sound b) : c.Sound b' := by
  have hsubject : b'.metaSubject = b.metaSubject := by
    funext n
    rw [Bucket.metaSubject, Bucket.metaSubject, hname]
  cases c with
  | put call stage => exact h
  | delete name stage => cases stage <;> exact h
  | update name change stage =>
      cases stage with
      | publishing info =>
          show _ ∧ ∃ subject, b'.metaSubject info.name = some subject
          rw [hsubject]
          exact h
      | reading | targeting | purging | finished => exact h
  | link name info stage =>
      cases stage with
      | publishing =>
          show _ ∧ ∃ subject, b'.metaSubject name = some subject
          rw [hsubject]
          exact h
      | reading | finished => exact h

/-- A call that is made is sound: a put has no link, and `linkStore` has one to a store. -/
theorem StoreOp.sound {op : StoreOp} {o : Op} (h : op.op = some o) : o.call.Sound b := by
  cases op with
  | put call =>
      simp only [StoreOp.op] at h
      split at h
      · cases h
      · rename_i hlink
        cases h
        intro link hsome
        rw [hsome] at hlink
        exact absurd rfl hlink
  | linkStore name bucket maxPayload id now =>
      simp only [StoreOp.op] at h
      split at h
      · cases h
      · cases h
        intro link hsome
        cases hsome
        rfl
  | delete | update | link =>
      cases h
      trivial

/-- A call that failed publishes nothing. -/
theorem Call.sound_fail {c c' : Call} (hsound : c.Sound b) (h : c.fail = some c') : c'.Sound b := by
  unfold Call.fail at h
  split at h
  · obtain ⟨stage, -, rfl⟩ := Option.map_eq_some_iff.1 h
    exact hsound
  all_goals
    cases h
    try trivial

/-- A call that is going to publish a link does so. -/
theorem Call.advance_of_links {c : Call} (h : c.links ≠ none) : c.advance sha256 b ≠ none := by
  cases c with
  | put | delete => exact absurd rfl h
  | update name change stage =>
      cases stage with
      | publishing info =>
          simp only [Call.advance, UpdateStage.advance]
          split <;> nofun
      | reading | targeting | purging | finished => exact absurd rfl h
  | link name info stage =>
      cases stage with
      | publishing =>
          simp only [Call.advance, LinkStage.advance]
          split <;> nofun
      | reading | finished => exact absurd rfl h

namespace Stores

variable {s s' : Stores} {e : StoresEvent}

/-- All calls are sound. -/
def Sound (s : Stores) : Prop := ∀ bucket c, (bucket, c) ∈ s.calls → c.Sound (s.buckets bucket)

theorem sound_init : init.Sound := fun _ _ h => absurd h List.not_mem_nil

/-- What a step of a call does: the call is sound, and its bucket and the call advance. -/
theorem advance_inv {i : Nat} (hs : s.Sound) (hstep : s.step sha256 (.advance i) = some s') :
    ∃ bucket c b c', s.calls[i]? = some (bucket, c) ∧ Advances bucket (s.buckets bucket) c b c' ∧
      s' = ⟨Function.update s.buckets bucket b, s.calls.set i (bucket, c')⟩ := by
  simp only [step] at hstep
  split at hstep
  · rename_i bucket c hc
    split at hstep
    · rename_i b c' hadvance
      refine ⟨bucket, c, b, c', hc, ?_, (Option.some.inj hstep).symm⟩
      exact Call.advances (hs bucket c (List.mem_of_getElem? hc)) hadvance
    · cases hstep
  · cases hstep

theorem sound_step (hs : s.Sound) (hstep : s.step sha256 e = some s') : s'.Sound := by
  cases e with
  | start bucket op =>
      simp only [step] at hstep
      split at hstep
      · split at hstep
        · rename_i o ho
          cases hstep
          intro other c hc
          rcases List.mem_append.1 hc with hc | hc
          · exact hs other c hc
          · obtain ⟨rfl, rfl⟩ := Prod.mk.inj (List.mem_singleton.1 hc)
            exact StoreOp.sound ho
        · cases hstep
          exact hs
      · cases hstep
  | advance i =>
      obtain ⟨bucket, c, b, c', hc, hadvances, rfl⟩ := advance_inv hs hstep
      intro other d hd
      by_cases hother : other = bucket
      · subst hother
        show d.Sound (Function.update s.buckets other b other)
        rw [Function.update_self]
        rcases List.mem_or_eq_of_mem_set hd with hd | hd
        · -- the other calls on the bucket keep its name
          exact Call.sound_congr hadvances.name (hs other d hd)
        · obtain ⟨-, rfl⟩ := Prod.mk.inj hd
          exact hadvances.sound
      · -- the other buckets are as they were
        show d.Sound (Function.update s.buckets bucket b other)
        rw [Function.update_of_ne hother]
        rcases List.mem_or_eq_of_mem_set hd with hd | hd
        · exact hs other d hd
        · exact absurd (Prod.mk.inj hd).1 hother
  | fail i =>
      simp only [step] at hstep
      split at hstep
      · rename_i bucket c hc
        split at hstep
        · rename_i c' hfail
          cases hstep
          intro other d hd
          rcases List.mem_or_eq_of_mem_set hd with hd | hd
          · exact hs other d hd
          · obtain ⟨rfl, rfl⟩ := Prod.mk.inj hd
            have hsound := hs other c (List.mem_of_getElem? hc)
            exact Call.sound_fail hsound hfail
        · cases hstep
      · cases hstep

/-- **One step** keeps the chains of links finite exactly if it is harmless. -/
theorem ends_step (hs : s.Sound) (hends : ∀ p, Ends s.next p) (hstep : s.step sha256 e = some s') :
    (∀ p, Ends s'.next p) ↔ s.Harmless e := by
  cases e with
  | start bucket op =>
      have hnext : s'.next = s.next := by
        simp only [step] at hstep
        split at hstep
        · split at hstep <;>
            · cases hstep
              rfl
        · cases hstep
      rw [hnext]
      exact ⟨fun _ => trivial, fun _ => hends⟩
  | fail i =>
      have hnext : s'.next = s.next := by
        simp only [step] at hstep
        split at hstep
        · split at hstep
          · cases hstep
            rfl
          · cases hstep
        · cases hstep
      rw [hnext]
      exact ⟨fun _ => trivial, fun _ => hends⟩
  | advance i =>
      obtain ⟨bucket, c, b, c', hc, hadvances, rfl⟩ := advance_inv hs hstep
      obtain ⟨n, hother, hself⟩ := hadvances.relinks
      have hnext : ∀ m, next ⟨Function.update s.buckets bucket b, s.calls.set i (bucket, c')⟩
          (bucket, m) = b.linkAt bucket m := by
        intro m
        show (Function.update s.buckets bucket b bucket).linkAt bucket m = _
        rw [Function.update_self]
      have hsame : ∀ p, p ≠ (bucket, n) →
          next ⟨Function.update s.buckets bucket b, s.calls.set i (bucket, c')⟩ p = s.next p := by
        rintro ⟨other, m⟩ hne
        by_cases heq : other = bucket
        · subst heq
          rw [hnext, hother m fun hm => hne (by rw [hm])]
          rfl
        · show (Function.update s.buckets bucket b other).linkAt other m = _
          rw [Function.update_of_ne heq]
          rfl
      rw [ends_iff_of_write hsame hends, hnext]
      cases hlinks : c.links with
      | none =>
          rw [hlinks] at hself
          refine ⟨fun _ => ?_, fun _ p hp => ?_⟩
          · intro bucket' d name info p hd hlinks'
            obtain ⟨-, rfl⟩ := Prod.mk.inj (Option.some.inj (hc.symm.trans hd))
            rw [hlinks] at hlinks'
            cases hlinks'
          · rcases hself with hnone | hold
            · rw [hnone] at hp
              cases hp
            · -- the link was there, and its chain ended
              rw [hold] at hp
              exact fun hback => @not_ends_of_leads _ s.next (bucket, n) p hp hback (hends _)
      | some l =>
          obtain ⟨name, info⟩ := l
          rw [hlinks] at hself
          obtain ⟨rfl, hplace⟩ := hself
          rw [hplace]
          constructor
          · intro hback bucket' d name' info' p hd hlinks' hp
            obtain ⟨rfl, rfl⟩ := Prod.mk.inj (Option.some.inj (hc.symm.trans hd))
            obtain ⟨rfl, rfl⟩ := Prod.mk.inj (Option.some.inj (hlinks.symm.trans hlinks'))
            exact hback p hp
          · exact fun hharmless p hp => hharmless bucket c n info p hc hlinks hp

/-- A step that cannot be taken links nothing. -/
theorem harmless_of_none (h : s.step sha256 e = none) : s.Harmless e := by
  cases e with
  | start | fail => trivial
  | advance i =>
      intro bucket c name info p hc hlinks
      simp only [step, hc] at h
      split at h
      · cases h
      · rename_i hadvance
        exact absurd hadvance (Call.advance_of_links (by rw [hlinks]; nofun))

theorem ends_init (p : String × String) : Ends init.next p := by
  apply ends_of_none
  show (if p.2 = "" then none else ((⟨p.1, [], 0⟩ : Bucket).latest p.2).bind _) = none
  split
  · rfl
  · unfold Bucket.latest
    cases (⟨p.1, [], 0⟩ : Bucket).metaSubject p.2 <;> rfl

/-- **Every `get` settles, all along a run,** exactly if no link is written to a place from which
the links lead back to it. -/
theorem settled_iff (sha256 : StreamingHash) (es : List StoresEvent) :
    Always (step sha256) (Settled sha256) init es ↔ Meets (step sha256) Harmless init es := by
  apply always_iff_meets (I := Sound)
  · exact fun s e s' hs hstep => sound_step hs hstep
  · intro s e s' hs hsettled hstep
    rw [settled_iff_ends]
    exact ends_step hs ((settled_iff_ends s).1 hsettled) hstep
  · exact fun s e hnone => harmless_of_none hnone
  · exact sound_init
  · exact (settled_iff_ends init).2 ends_init

/-- A step writes a link to another place only, and one without a link. -/
def Direct (s : Stores) : StoresEvent → Prop
  | .advance i => ∀ call ∈ s.calls[i]?, ∀ entry ∈ call.2.links, ∀ p ∈ entry.2.place call.1,
      p ≠ (call.1, entry.1) ∧ s.next p = none
  | .start _ _ | .fail _ => True

theorem harmless_of_direct (h : s.Direct e) : s.Harmless e := by
  cases e with
  | start | fail => trivial
  | advance i =>
      intro bucket c name info p hc hlinks hp hback
      obtain ⟨hne, hnone⟩ := h (bucket, c) hc (name, info) hlinks p hp
      exact hne (eq_of_leads hback hnone)

/-- **Links to objects that are no link** when they are written do no harm. -/
theorem settled_of_direct (sha256 : StreamingHash) (es : List StoresEvent)
    (h : Meets (step sha256) Direct init es) : Always (step sha256) (Settled sha256) init es :=
  (settled_iff sha256 es).2 (h.mono fun _ _ => harmless_of_direct)

/-- A put of an object, a delete of it, and a link under its name with the info that the put
returned. -/
def selfLink : List StoresEvent :=
  let info := putAbc.stored hashOfAbc ⟨"b", [], 0⟩ 3
  [.start "b" (.put putAbc), .advance 0, .advance 0, .advance 0, .advance 0, .advance 0,
    .start "b" (.delete "a"), .advance 1, .advance 1, .advance 1,
    .start "b" (.link "a" info), .advance 2, .advance 2]

/-- Behind it `get` goes round for ever. -/
theorem not_settled : ¬ ∀ (sha256 : StreamingHash) (s : Stores), Reachable (step sha256) init s →
    s.Settled sha256 := by
  intro h
  have hends : (run (step hashOfAbc) init selfLink).any
      (fun s => decide (s.next ("b", "a") = some ("b", "a"))) = true := by
    decide +kernel
  obtain ⟨s, hrun, hs⟩ := (Option.any_eq_true _ _).1 hends
  have hsettled := (settled_iff_ends s).1 (h hashOfAbc s ⟨selfLink, hrun⟩) ("b", "a")
  exact not_ends_of_leads (of_decide_eq_true hs) (leads_refl _) hsettled

end Stores

end

end NatsClient.ObjectStore
