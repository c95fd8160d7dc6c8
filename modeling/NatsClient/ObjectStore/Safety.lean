import NatsClient.ObjectStore.Get
import NatsClient.ObjectStore.Ownership

/-!
# Safety of a bucket with several clients

`complete_of_apart`: where no update overlaps a put or delete of the same object, no update that
renames the object overlaps another update of it, and no call fails halfway, every object of a quiet
bucket is complete, however the stream operations of the calls interleave. `not_complete` has a run
for each kind of overlap and failure after which an object is not.

Each kind of call keeps the invariant of the owners (`put_step`, `delete_step`, `update_step` and
`link_step`): the chunks of a nuid are purged by a call on the name that owns it, when the entry of
that name no longer needs them. An entry without a nuid tells of no chunks (`AllBare`).
-/

set_option autoImplicit false

namespace NatsClient.ObjectStore

open Foundation Wire

variable {sha256 : StreamingHash}

namespace Clients.Inv

variable {own own' : String → Option String} {s : Clients} {i : Nat} {c c' : Call} {b' : Bucket}
  {n id : String} {info : ServerObjectInfo}

/-- A put reads the old entry of its object. -/
theorem put_reads (h : Inv sha256 own s) {call : PutCall} {old : Option ServerObjectInfo}
    (hc : s.calls[i]? = some (.put call .reading))
    (hread : s.bucket.rawInfo call.objMeta.name = .ok old) :
    Inv sha256 own ⟨s.bucket,
      s.calls.set i (.put call (.writing old (call.writer : Writer sha256).published)),
      s.puts⟩ := by
  have hfits := h.fits i _ hc
  refine h.read hc rfl rfl rfl (fun p hp => hp) ?_
  constructor
  · intro n info id htarget hid
    cases old with
    | none => cases htarget
    | some old =>
        cases htarget
        exact (h.of_read hread (h.not_doomed_of_writes hc rfl rfl)).2.1 id hid
  · intro n info id e hpurges
    cases hpurges
  · intro n info id hholds
    cases hholds
  · intro n info hholds
    cases hholds
  · exact hfits.unborn
  · intro p rest hleft
    cases hleft
    exact hfits.left call _ rfl
  · trivial

/-- A put publishes its next chunk. -/
theorem put_writes (h : Inv sha256 own s) {call : PutCall} {old : Option ServerObjectInfo}
    {payload : Bytes} {rest : List Bytes}
    (hc : s.calls[i]? = some (.put call (.writing old (payload :: rest)))) :
    Inv sha256 own ⟨s.bucket.store (s.bucket.chunkSubject call.id) (.bytes payload) false,
      s.calls.set i (.put call (.writing old rest)), s.puts⟩ := by
  have hfits := h.fits i _ hc
  refine h.own_chunks hc rfl rfl rfl rfl (fun p hp => hp) (Bucket.latest_store_chunk payload) ?_ ?_
  · intro x hx
    exact chunks_store_of_id_ne hx payload
  · constructor
    · intro n info id htarget hid
      apply hfits.target n info id _ hid
      cases old with
      | none => cases htarget
      | some old => exact htarget
    · intro n info id e hpurges
      cases hpurges
    · intro n info id hholds
      cases hholds
    · intro n info hholds
      cases hholds
    · exact hfits.unborn
    · intro p rest' hleft
      cases hleft
      rw [Bucket.chunks_store_self, List.append_assoc]
      exact hfits.left call (payload :: rest) rfl
    · trivial

/-- A put that gives up in front of its entry. -/
theorem put_fails (h : Inv sha256 own s) {call : PutCall} {old : Option ServerObjectInfo}
    {rest : List Bytes} (hc : s.calls[i]? = some (.put call (.writing old rest))) :
    Inv sha256 own ⟨s.bucket, s.calls.set i (.put call .cleaning), s.puts⟩ := by
  have hfits := h.fits i _ hc
  refine h.read hc rfl rfl rfl (fun p hp => hp) ?_
  constructor
  · intro n info id htarget
    cases htarget
  · intro n info id e hpurges
    cases hpurges
  · intro n info id hholds
    cases hholds
  · intro n info hholds
    cases hholds
  · exact hfits.unborn
  · intro p rest' hleft
    cases hleft
  · trivial

/-- A put publishes its entry: its name becomes the owner of its nuid. -/
theorem put_publishes (h : Inv sha256 own s) {call : PutCall} {old : Option ServerObjectInfo}
    {subject : String} (hc : s.calls[i]? = some (.put call (.writing old [])))
    (hsubj : s.bucket.metaSubject call.objMeta.name = some subject) :
    ∃ own', Inv sha256 own'
      ⟨s.bucket.store subject (.json (call.entry s.bucket.name (call.writer : Writer sha256))) true,
        s.calls.set i (.put call (.published old)), s.puts⟩ := by
  have hfits := h.fits i _ hc
  obtain ⟨hnone, hcall⟩ := hfits.unborn call rfl
  have hwrote : (call.writer : Writer sha256).Wrote call.maxChunk call.rs.flatten :=
    Writer.write_spec call.maxChunk call.rs
  have hpublished := hfits.left call [] rfl
  rw [List.append_nil] at hpublished
  have hnuid : ∀ id, (call.entry s.bucket.name (call.writer : Writer sha256)).nuid = some id ↔
      call.id = id := fun id => Option.some_inj
  refine ⟨Function.update own call.id (some call.objMeta.name), ?_⟩
  have hsame : ∀ id, call.id ≠ id →
      Function.update own call.id (some call.objMeta.name) id = own id := by
    intro id hid
    exact Function.update_of_ne (Ne.symm hid) _ _
  apply h.publishes hc
  · rfl
  · rfl
  · rfl
  · rfl
  · exact hsubj
  · rfl
  · intro id hid
    rw [hnuid] at hid
    subst hid
    exact Function.update_self ..
  · intro id hid
    exact hsame id fun heq => hid ((hnuid id).2 heq)
  · intro id m hid hm
    rw [hnuid] at hid
    subst hid
    rw [hnone] at hm
    cases hm
  · intro id hid
    exact ⟨call, hcall, (hnuid id).1 hid⟩
  · intro id _ hid
    rw [hnuid] at hid
    subst hid
    refine ⟨call, hcall, rfl, hpublished, ?_, ?_⟩
    · rw [hpublished, ← hwrote.chunks_eq]
      rfl
    · rw [hpublished, hwrote.partition.flatten_eq, ← hwrote.size_eq]
      rfl
  · -- the nuid is new to the other calls
    intro j d hji hj id hid
    rw [hnuid] at hid
    subst hid
    obtain ⟨hholds, htarget, hunborn, _⟩ := h.unborn_apart hc rfl hj hji
    refine ⟨?_, ?_, hunborn, ?_⟩
    · intro m info hd hid
      exact absurd rfl (htarget m info _ hd hid)
    · intro m info hd hid
      exact absurd rfl (hholds m info _ hd hid)
    · intro info hd hid
      exact absurd rfl (htarget _ info _ (target_of_purges hd) hid)
  · cases old with
    | none => exact fits_of_no_role rfl rfl rfl rfl rfl trivial
    | some old =>
        -- the old nuid is not the one just published
        have hold : ∀ id, old.nuid = some id → call.id ≠ id := by
          intro id hid heq
          subst heq
          have hown := hfits.target _ old _ rfl hid
          rw [hnone] at hown
          cases hown
        refine fits_of_target ?_ ?_ rfl rfl rfl trivial
        · intro n info id htarget hid
          cases htarget
          rw [hsame id (hold id hid)]
          exact hfits.target _ old id rfl hid
        · intro n info id e hpurges hid he heid
          cases hpurges
          rw [Bucket.latest_store hsubj, if_pos rfl, Option.some.injEq] at he
          subst he
          exact absurd ((hnuid id).1 heid) (hold id hid)

/-- **A put does its next stream operation.** -/
theorem put_step (h : Inv sha256 own s) {call : PutCall} {stage stage' : PutStage}
    (hc : s.calls[i]? = some (.put call stage))
    (hadvance : stage.advance sha256 s.bucket call = some (b', stage')) :
    ∃ own', Inv sha256 own' ⟨b', s.calls.set i (.put call stage'), s.puts⟩ := by
  cases stage with
  | reading =>
      simp only [PutStage.advance] at hadvance
      split at hadvance
      · cases hadvance
        exact ⟨own, h.finishes hc rfl rfl rfl rfl⟩
      · next old hread =>
          cases hadvance
          exact ⟨own, h.put_reads hc hread⟩
  | writing old rest =>
      cases rest with
      | cons payload rest =>
          cases hadvance
          exact ⟨own, h.put_writes hc⟩
      | nil =>
          simp only [PutStage.advance] at hadvance
          split at hadvance
          · cases hadvance
            -- the catch purges the chunks of its own nuid only
            exact ⟨own, h.put_fails hc⟩
          · next subject hsubj =>
              split at hadvance
              · cases hadvance
                exact ⟨own, h.put_fails hc⟩
              · cases hadvance
                exact h.put_publishes hc hsubj
  | published old =>
      have hfits := h.fits i _ hc
      cases old with
      | none =>
          cases hadvance
          exact ⟨own, h.finishes hc rfl rfl rfl rfl⟩
      | some old =>
          cases hadvance
          exact ⟨own, h.read hc rfl rfl rfl (no_unborn rfl)
            (fits_of_target hfits.target hfits.purges rfl rfl rfl trivial)⟩
  | purging old =>
      cases hadvance
      exact ⟨own, h.purges hc rfl rfl rfl rfl⟩
  | cleaning =>
      cases hadvance
      -- no entry has the nuid, as the put failed in front of its entry
      refine ⟨own, h.own_chunks hc rfl rfl rfl rfl (no_unborn rfl) Bucket.latest_purge_chunks
        ?_ (idle rfl)⟩
      intro x hx
      exact chunks_purge_of_id_ne hx
  | finished => cases hadvance

/-- A delete publishes the deleted entry. -/
theorem delete_publishes (h : Inv sha256 own s) {subject : String}
    (hc : s.calls[i]? = some (.delete n (.publishing info)))
    (hsubj : s.bucket.metaSubject info.name = some subject) :
    Inv sha256 own ⟨s.bucket.store subject (.json info) true,
      s.calls.set i (.delete n (.purging info)), s.puts⟩ := by
  have hfits := h.fits i _ hc
  obtain ⟨hname, hdeleted⟩ := hfits.named
  have hown : ∀ id, info.nuid = some id → own id = some info.name := by
    intro id hid
    rw [hname]
    exact hfits.target n info id rfl hid
  apply h.publishes hc
  · rfl
  · rfl
  · rfl
  · rfl
  · exact hsubj
  · rfl
  · exact hown
  · exact fun _ _ => rfl
  · intro id m hid hm hne
    rw [hown id hid, Option.some.injEq] at hm
    exact absurd hm.symm hne
  · intro id hid
    exact h.world.known id _ (hown id hid)
  · -- a deleted entry promises no chunks
    intro id hlive
    rw [hdeleted] at hlive
    cases hlive
  · intro j d hji hj id hid
    refine ⟨fun _ _ _ _ => rfl, fun _ _ _ _ => rfl, ?_, fun _ _ _ => hdeleted⟩
    intro p hp heq
    subst heq
    -- the nuid of an entry is no nuid of a put that has not published
    have hnone := ((h.fits j d hj).unborn p hp).1
    rw [hown p.id hid] at hnone
    cases hnone
  · refine fits_of_target ?_ ?_ rfl rfl rfl trivial
    · intro m other id htarget hid
      cases htarget
      exact hfits.target n info id rfl hid
    · intro m other id e hpurges hid he heid
      cases hpurges
      rw [← hname, Bucket.latest_store hsubj, if_pos rfl, Option.some.injEq] at he
      rw [← he]
      exact hdeleted

/-- **A delete does its next stream operation.** -/
theorem delete_step (h : Inv sha256 own s) {stage stage' : DeleteStage}
    (hc : s.calls[i]? = some (.delete n stage))
    (hadvance : stage.advance s.bucket n = some (b', stage')) :
    Inv sha256 own ⟨b', s.calls.set i (.delete n stage'), s.puts⟩ := by
  cases stage with
  | reading =>
      simp only [DeleteStage.advance] at hadvance
      split at hadvance
      · next info hread =>
          cases hadvance
          obtain ⟨hname, hown, _⟩ := h.of_read hread (h.not_doomed_of_writes hc rfl rfl)
          refine h.read hc rfl rfl rfl (no_unborn rfl)
            (fits_of_target ?_ ?_ rfl rfl rfl ⟨hname, rfl⟩)
          · intro m other id htarget hid
            cases htarget
            exact hown id hid
          · intro m other id e hpurges
            cases hpurges
      · cases hadvance
        exact h.finishes hc rfl rfl rfl rfl
  | publishing info =>
      simp only [DeleteStage.advance] at hadvance
      split at hadvance
      · cases hadvance
        exact h.finishes hc rfl rfl rfl rfl
      · next subject hsubj =>
          cases hadvance
          exact h.delete_publishes hc hsubj
  | purging info =>
      cases hadvance
      exact h.purges hc rfl rfl rfl rfl
  | finished => cases hadvance

/-- What an update that is in front of its publish has to fit. -/
theorem fits_update {change : ObjectStoreUpdate} {stage : UpdateStage} {b : Bucket}
    {puts : List PutCall} (hholds : Call.holds (.update n change stage) = some (n, info))
    (hown : ∀ id, info.nuid = some id → own id = some n ∧ Complete sha256 b puts info id)
    (hlive : info.isDeleted = false) (hnamed : Call.Named (.update n change stage)) :
    Fits sha256 own b puts (.update n change stage) where
  target := by
    intro m other id htarget
    cases htarget
  purges := by
    intro m other id e hpurges
    cases hpurges
  holds := by
    intro m other id hd hid
    rw [hholds] at hd
    cases hd
    exact hown id hid
  live := by
    intro m other hd
    rw [hholds] at hd
    cases hd
    exact hlive
  unborn := by
    intro p hp
    cases hp
  left := by
    intro p rest hleft
    cases hleft
  named := hnamed

/-- An update publishes the entry: a rename makes the new name the owner of the nuid. -/
theorem update_publishes (h : Inv sha256 own s) {change : ObjectStoreUpdate} {subject : String}
    (hc : s.calls[i]? = some (.update n change (.publishing info)))
    (hsubj : s.bucket.metaSubject info.name = some subject) {stage : UpdateStage}
    (hstage : stage = if n ≠ info.name then .purging else .finished) :
    ∃ own', Inv sha256 own' ⟨s.bucket.store subject (.json info) false,
      s.calls.set i (.update n change stage), s.puts⟩ := by
  have hfits := h.fits i _ hc
  have hnamed : info.name = change.name.getD n := hfits.named
  have hself : ∀ own' : String → Option String, Fits sha256 own'
      (s.bucket.store subject (.json info) false) s.puts (.update n change stage) := by
    intro own'
    cases hrename : decide (n ≠ info.name) with
    | true =>
        have hrename := of_decide_eq_true hrename
        rw [if_pos hrename] at hstage
        subst hstage
        apply fits_of_no_role rfl rfl rfl rfl rfl
        rw [Call.Named, ← hnamed]
        exact hrename.symm
    | false =>
        rw [if_neg (of_decide_eq_false hrename)] at hstage
        subst hstage
        exact idle rfl
  -- the new name becomes the owner
  refine ⟨fun id => if info.nuid = some id then some info.name else own id, ?_⟩
  apply h.publishes hc
  · rfl
  · rfl
  · rfl
  · rfl
  · exact hsubj
  · rfl
  · intro id hid
    exact if_pos hid
  · intro id hid
    exact if_neg hid
  · intro id m hid hm hne
    have hown := (hfits.holds n info id rfl hid).1
    rw [hown, Option.some.injEq] at hm
    subst hm
    rw [if_pos hne] at hstage
    subst hstage
    rfl
  · intro id hid
    exact h.world.known id n (hfits.holds n info id rfl hid).1
  · intro id _ hid
    exact (hfits.holds n info id rfl hid).2
  · intro j d hji hj id hid
    have hown := (hfits.holds n info id rfl hid).1
    have hd := h.fits j d hj
    refine ⟨?_, ?_, ?_, ?_⟩
    · intro m other htarget hother
      have hown' := hd.target m other id htarget hother
      rw [hown, Option.some.injEq] at hown'
      subst hown'
      exact absurd htarget (h.no_target hc rfl rfl hj hji)
    · intro m other hholds hother
      have hown' := (hd.holds m other id hholds hother).1
      rw [hown, Option.some.injEq] at hown'
      subst hown'
      rw [if_pos hid, hown]
      cases hrename : decide (info.name = n) with
      | true => rw [of_decide_eq_true hrename]
      | false =>
          -- another update of the object while it is renamed
          have hrename := of_decide_eq_false hrename
          obtain ⟨hpend, hupdates⟩ := updates_of_holds hholds
          exfalso
          apply h.apart i j _ d hji.symm hc hj rfl hpend
          right
          have hrenames : (Op.update n change).renames = some n := by
            rw [hnamed] at hrename
            exact if_pos hrename
          rw [hupdates]
          exact ⟨by rw [Call.op, hrenames]; rfl, hrenames⟩
    · intro p hp heq
      subst heq
      have hnone := (hd.unborn p hp).1
      rw [hown] at hnone
      cases hnone
    · intro other hpurges hother
      have htarget := target_of_purges hpurges
      have hown' := hd.target _ other id htarget hother
      rw [hown, Option.some.injEq] at hown'
      rw [← hown'] at htarget
      exact absurd htarget (h.no_target hc rfl rfl hj hji)
  · exact hself _

/-- An update purges the entries of the old name. -/
theorem update_purges (h : Inv sha256 own s) {change : ObjectStoreUpdate}
    (hc : s.calls[i]? = some (.update n change .purging))
    (hlatest : ∀ m, b'.latest m = if m = n then none else s.bucket.latest m)
    (hchunks : ∀ x, b'.chunks x = s.bucket.chunks x) :
    Inv sha256 own ⟨b', s.calls.set i (.update n change .finished), s.puts⟩ := by
  apply h.of_advance hc
  · rfl
  · rfl
  · exact no_unborn rfl
  · apply h.world.purge hlatest hchunks
    intro m hne hm
    rcases doomed_of_doomed hc hm with hd | hd
    · cases hd
      exact absurd rfl hne
    · exact hd
  · exact idle rfl
  · intro j d _ hj
    apply (h.fits j d hj).frame
    · intro m e he
      rw [hlatest] at he
      split at he
      · cases he
      · exact he
    · exact fun _ _ id _ _ => hchunks id
    · exact fun p _ _ => hchunks p.id

/-- **An update does its next stream operation.** -/
theorem update_step (h : Inv sha256 own s) {change : ObjectStoreUpdate} {stage stage' : UpdateStage}
    (hc : s.calls[i]? = some (.update n change stage))
    (hadvance : stage.advance s.bucket n change = some (b', stage')) :
    ∃ own', Inv sha256 own' ⟨b', s.calls.set i (.update n change stage'), s.puts⟩ := by
  cases stage with
  | reading =>
      simp only [UpdateStage.advance] at hadvance
      split at hadvance
      · next info hread =>
          obtain ⟨hname, hown, hcomplete⟩ :=
            h.of_read hread (h.not_doomed_of_updates hc rfl rfl rfl)
          split at hadvance
          · cases hadvance
            exact ⟨own, h.finishes hc rfl rfl rfl rfl⟩
          · next hgo =>
              -- a deleted entry is not updated
              have hlive : info.isDeleted = false := by
                cases hdeleted : info.isDeleted with
                | true => exact absurd (Or.inl hdeleted) hgo
                | false => rfl
              split at hadvance
              · cases hadvance
                refine ⟨own, h.read hc rfl rfl rfl (no_unborn rfl) (fits_update rfl ?_ hlive hname)⟩
                exact fun id hid => ⟨hown id hid, hcomplete id hlive hid⟩
              · cases hadvance
                refine ⟨own, h.read hc rfl rfl rfl (no_unborn rfl) (fits_update rfl ?_ hlive ?_)⟩
                · exact fun id hid => ⟨hown id hid, hcomplete id hlive hid⟩
                · rw [← hname]
                  rfl
      · cases hadvance
        exact ⟨own, h.finishes hc rfl rfl rfl rfl⟩
  | targeting info =>
      have hfits := h.fits i _ hc
      have hname : info.name = n := hfits.named
      -- the entry under the new name has the nuid of the one that was read
      have hpublish : Inv sha256 own ⟨s.bucket, s.calls.set i
          (.update n change (.publishing (info.assign (change.name.getD info.name) change))),
          s.puts⟩ := by
        refine h.read hc rfl rfl rfl (no_unborn rfl) (fits_update rfl ?_ (hfits.live n info rfl) ?_)
        · exact fun id hid => hfits.holds n info id rfl hid
        · rw [← hname]
          rfl
      simp only [UpdateStage.advance] at hadvance
      split at hadvance
      · cases hadvance
        exact ⟨own, h.finishes hc rfl rfl rfl rfl⟩
      · split at hadvance
        · cases hadvance
          exact ⟨own, hpublish⟩
        · cases hadvance
          exact ⟨own, h.finishes hc rfl rfl rfl rfl⟩
      · cases hadvance
        exact ⟨own, hpublish⟩
  | publishing info =>
      simp only [UpdateStage.advance] at hadvance
      split at hadvance
      · cases hadvance
        exact ⟨own, h.finishes hc rfl rfl rfl rfl⟩
      · next subject hsubj =>
          cases hadvance
          exact h.update_publishes hc hsubj rfl
  | purging =>
      simp only [UpdateStage.advance] at hadvance
      split at hadvance
      · next hsubj =>
          cases hadvance
          refine ⟨own, h.update_purges hc ?_ fun _ => rfl⟩
          intro m
          split
          · next hm =>
              -- a name without a meta subject has no entry to purge
              rw [hm, Bucket.latest, hsubj]
              rfl
          · rfl
      · next subject hsubj =>
          cases hadvance
          exact ⟨own, h.update_purges hc (Bucket.latest_purge hsubj) (chunks_purge_entries hsubj)⟩
  | finished => cases hadvance

theorem fits_link {stage : LinkStage} {b : Bucket} {puts : List PutCall} :
    Fits sha256 own b puts (.link n info stage) :=
  fits_of_no_role rfl rfl rfl rfl rfl trivial

/-- **A link does its next stream operation**: its entry has no nuid. -/
theorem link_step (h : Inv sha256 own s) {stage stage' : LinkStage}
    (hc : s.calls[i]? = some (.link n info stage))
    (hadvance : stage.advance s.bucket n info = some (b', stage')) :
    Inv sha256 own ⟨b', s.calls.set i (.link n info stage'), s.puts⟩ := by
  cases stage with
  | reading =>
      have hread : ∀ stage'', Inv sha256 own
          ⟨s.bucket, s.calls.set i (.link n info stage''), s.puts⟩ := fun stage'' =>
        h.read hc rfl rfl rfl (no_unborn rfl) fits_link
      simp only [LinkStage.advance] at hadvance
      split at hadvance
      · cases hadvance
        exact hread _
      · split at hadvance
        · cases hadvance
          exact hread _
        · cases hadvance
          exact hread _
        · cases hadvance
          exact hread _
  | publishing =>
      simp only [LinkStage.advance] at hadvance
      split at hadvance
      · cases hadvance
        exact h.read hc rfl rfl rfl (no_unborn rfl) fits_link
      · next subject hsubj =>
          cases hadvance
          -- so it takes no chunks from anybody
          have hnone : ∀ id, (linkEntry n info).nuid ≠ some id := by
            intro id hid
            cases hid
          apply h.publishes hc
          · rfl
          · rfl
          · rfl
          · rfl
          · exact hsubj
          · rfl
          · exact fun id hid => absurd hid (hnone id)
          · exact fun _ _ => rfl
          · exact fun id _ hid => absurd hid (hnone id)
          · exact fun id hid => absurd hid (hnone id)
          · exact fun id _ hid => absurd hid (hnone id)
          · exact fun _ _ _ _ id hid => absurd hid (hnone id)
          · exact fits_link
  | finished => cases hadvance

/-- **A call fails**, unless it is halfway. -/
theorem fail_step (h : Inv sha256 own s) (hc : s.calls[i]? = some c) (hhalfway : c.halfway = false)
    (hfail : c.fail = some c') : Inv sha256 own ⟨s.bucket, s.calls.set i c', s.puts⟩ := by
  cases c with
  | put call stage =>
      obtain ⟨stage', hstage, rfl⟩ := Option.map_eq_some_iff.1 hfail
      cases stage with
      | writing old rest =>
          -- no entry has the nuid yet, so that its chunks may go
          cases hstage
          exact h.put_fails hc
      | published old => cases hhalfway
      | reading | purging _ | cleaning =>
          cases hstage
          exact h.finishes hc rfl rfl rfl rfl
      | finished => cases hstage
  | delete name stage =>
      cases stage with
      | reading | publishing _ | purging _ =>
          cases hfail
          exact h.finishes hc rfl rfl rfl rfl
      | finished => cases hfail
  | update name change stage =>
      cases stage with
      | reading | targeting _ | publishing _ =>
          cases hfail
          exact h.finishes hc rfl rfl rfl rfl
      | purging => cases hhalfway
      | finished => cases hfail
  | link name info stage =>
      cases stage with
      | reading | publishing =>
          cases hfail
          exact h.finishes hc rfl rfl rfl rfl
      | finished => cases hfail

/-- A call that was just made fits: its nuid, if it takes one, is new. -/
theorem fits_call (h : Inv sha256 own s) {op : Op} {puts : List PutCall}
    (hputs : s.putsWith op = some puts) :
    Fits sha256 own s.bucket puts op.call ∧ (∀ p ∈ s.puts, p ∈ puts) ∧
      (∀ p ∈ puts, p.id ≠ "undefined") ∧ ∀ p, op.call.unborn = some p →
      ∀ q ∈ s.puts, q.id ≠ p.id := by
  cases op with
  | put call =>
      simp only [putsWith, Option.ite_none_right_eq_some, Option.some.injEq] at hputs
      obtain ⟨⟨hnamed, hnew⟩, rfl⟩ := hputs
      refine ⟨?_, fun p hp => List.mem_cons_of_mem call hp, ?_, ?_⟩
      · constructor
        · intro m other id htarget
          cases htarget
        · intro m other id e hpurges
          cases hpurges
        · intro m other id hholds
          cases hholds
        · intro m other hholds
          cases hholds
        · intro p hp
          cases hp
          refine ⟨?_, List.mem_cons_self ..⟩
          cases hown : own call.id with
          | none => rfl
          | some k =>
              -- a nuid with an owner was drawn by an earlier put
              obtain ⟨q, hq, hqid⟩ := h.world.known call.id k hown
              exact absurd hqid (hnew q hq)
        · intro p rest hleft
          cases hleft
          rw [h.world.fresh call.id hnew]
          rfl
        · trivial
      · intro p hp
        rcases List.mem_cons.1 hp with rfl | hp
        · exact hnamed
        · exact h.world.named p hp
      · intro p hp q hq
        cases hp
        exact hnew q hq
  | delete name =>
      cases hputs
      exact ⟨fits_of_no_role rfl rfl rfl rfl rfl trivial, fun p hp => hp, h.world.named,
        no_unborn rfl⟩
  | update name change =>
      cases hputs
      exact ⟨fits_of_no_role rfl rfl rfl rfl rfl trivial, fun p hp => hp, h.world.named,
        no_unborn rfl⟩
  | link name info =>
      cases hputs
      exact ⟨fits_link, fun p hp => hp, h.world.named, no_unborn rfl⟩

/-- **A call is made** while no call it clashes with is under way. -/
theorem start (h : Inv sha256 own s) {op : Op} {puts : List PutCall} (hapart : s.Apart (.start op))
    (hputs : s.putsWith op = some puts) :
    Inv sha256 own ⟨s.bucket, s.calls ++ [op.call], puts⟩ := by
  obtain ⟨hfits, hsub, hnamed, hnew⟩ := h.fits_call hputs
  have hop : op.call.op = op := by cases op <;> rfl
  have hget : ∀ (j : Nat) (d : Call), (s.calls ++ [op.call])[j]? = some d →
      (j = s.calls.length ∧ d = op.call) ∨ (j ≠ s.calls.length ∧ s.calls[j]? = some d) := by
    intro j d hj
    rcases Nat.lt_trichotomy j s.calls.length with hlt | heq | hgt
    · rw [List.getElem?_append_left hlt] at hj
      exact Or.inr ⟨Nat.ne_of_lt hlt, hj⟩
    · subst heq
      rw [List.getElem?_concat_length, Option.some.injEq] at hj
      exact Or.inl ⟨rfl, hj.symm⟩
    · have hnone : (s.calls ++ [op.call])[j]? = none := by
        rw [List.getElem?_eq_none_iff, List.length_append, List.length_singleton]
        omega
      rw [hnone] at hj
      cases hj
  have hcomplete : ∀ info id, Complete sha256 s.bucket s.puts info id →
      Complete sha256 s.bucket puts info id := by
    rintro info id ⟨call, hcall, hrest⟩
    exact ⟨call, hsub call hcall, hrest⟩
  have hdoomed : ∀ m, s.Doomed m → Doomed ⟨s.bucket, s.calls ++ [op.call], puts⟩ m := by
    rintro m ⟨j, d, hj, hd⟩
    have hlt : j < s.calls.length := (List.getElem?_eq_some_iff.1 hj).1
    exact ⟨j, d, (List.getElem?_append_left hlt).trans hj, hd⟩
  constructor
  · constructor
    · exact h.world.name_eq
    · intro m e id he hid
      obtain ⟨hsome, hown⟩ := h.world.owned m e id he hid
      exact ⟨hsome, fun hnot => hown fun hm => hnot (hdoomed m hm)⟩
    · intro m e id he hlive hid hnot
      exact hcomplete e id (h.world.complete m e id he hlive hid fun hm => hnot (hdoomed m hm))
    · intro id m hm
      obtain ⟨p, hp, hpid⟩ := h.world.known id m hm
      exact ⟨p, hsub p hp, hpid⟩
    · intro id hid
      exact h.world.fresh id fun p hp => hid p (hsub p hp)
    · exact hnamed
  · intro j d hj
    rcases hget j d hj with ⟨-, rfl⟩ | ⟨-, hj'⟩
    · exact hfits
    · have hd := h.fits j d hj'
      exact ⟨hd.target, hd.purges, fun m info id hholds hid =>
          ⟨(hd.holds m info id hholds hid).1, hcomplete info id (hd.holds m info id hholds hid).2⟩,
        hd.live, fun p hp => ⟨(hd.unborn p hp).1, hsub p (hd.unborn p hp).2⟩, hd.left, hd.named⟩
  · intro j k d e hjk hj hk hd he
    rcases hget j d hj with ⟨rfl, rfl⟩ | ⟨hjne, hj'⟩
    · rcases hget k e hk with ⟨rfl, rfl⟩ | ⟨_, hk'⟩
      · exact absurd rfl hjk
      · rw [hop]
        -- the condition: it clashes with none that is under way
        exact (hapart e (List.mem_of_getElem? hk') he).1
    · rcases hget k e hk with ⟨rfl, rfl⟩ | ⟨_, hk'⟩
      · rw [hop]
        exact (hapart d (List.mem_of_getElem? hj') hd).2
      · exact h.apart j k d e hjk hj' hk' hd he
  · intro j k d e p q hjk hj hk hp hq
    rcases hget j d hj with ⟨rfl, rfl⟩ | ⟨hjne, hj'⟩
    · rcases hget k e hk with ⟨rfl, rfl⟩ | ⟨_, hk'⟩
      · exact absurd rfl hjk
      · -- its nuid is none that was drawn before
        exact Ne.symm (hnew p hp q ((h.fits k e hk').unborn q hq).2)
    · rcases hget k e hk with ⟨rfl, rfl⟩ | ⟨_, hk'⟩
      · exact hnew q hq p ((h.fits j d hj').unborn p hp).2
      · exact h.distinct j k d e p q hjk hj' hk' hp hq

end Clients.Inv

/-- The entry of an object, unless it is deleted or a link. -/
def Bucket.liveEntry (b : Bucket) (name : String) : Option ServerObjectInfo :=
  match b.rawInfo name with
  | .ok (some info) => if info.isDeleted = false ∧ info.link = none then some info else none
  | _ => none

theorem Bucket.liveEntry_some {b : Bucket} {name : String} {info : ServerObjectInfo}
    (h : b.liveEntry name = some info) :
    b.rawInfo name = .ok (some info) ∧ info.isDeleted = false ∧ info.link = none := by
  unfold Bucket.liveEntry at h
  split at h
  · next info' hread =>
      simp only [Option.ite_none_right_eq_some, Option.some.injEq] at h
      obtain ⟨⟨hlive, hlink⟩, rfl⟩ := h
      exact ⟨hread, hlive, hlink⟩
  · cases h

namespace Clients

theorem latest_init (name n : String) : (init name).bucket.latest n = none := by
  rw [Bucket.latest]
  cases (init name).bucket.metaSubject n with
  | none => rfl
  | some subject => rfl

/-- Nothing is stored, and no call was made. -/
theorem inv_init (name : String) : Inv sha256 (fun _ => none) (init name) := by
  have hnone := latest_init name
  constructor
  · constructor
    · intro n e he
      rw [hnone] at he
      cases he
    · intro n e id he
      rw [hnone] at he
      cases he
    · intro n e id he
      rw [hnone] at he
      cases he
    · intro id n hn
      cases hn
    · exact fun _ _ => rfl
    · intro p hp
      cases hp
  · intro i c hc
    cases hc
  · intro i j c d _ hc
    cases hc
  · intro i j c d p q _ hc
    cases hc

/-- **Steps keep the invariant**, where clashing calls do not overlap. -/
theorem inv_step {s s' : Clients} {e : ClientEvent} (h : ∃ own, Inv sha256 own s) (hok : s.Apart e)
    (hstep : s.step sha256 e = some s') : ∃ own, Inv sha256 own s' := by
  obtain ⟨own, h⟩ := h
  cases e with
  | start op =>
      simp only [step, Option.map_eq_some_iff] at hstep
      obtain ⟨puts, hputs, rfl⟩ := hstep
      exact ⟨own, h.start hok hputs⟩
  | advance i =>
      simp only [step] at hstep
      split at hstep
      · next b c' hadvance =>
          cases hstep
          obtain ⟨c, hc, hadvance⟩ := Option.bind_eq_some_iff.1 hadvance
          cases c with
          | put call stage =>
              obtain ⟨⟨b', stage'⟩, hstage, heq⟩ := Option.map_eq_some_iff.1 hadvance
              cases heq
              exact h.put_step hc hstage
          | delete name stage =>
              obtain ⟨⟨b', stage'⟩, hstage, heq⟩ := Option.map_eq_some_iff.1 hadvance
              cases heq
              exact ⟨own, h.delete_step hc hstage⟩
          | update name change stage =>
              obtain ⟨⟨b', stage'⟩, hstage, heq⟩ := Option.map_eq_some_iff.1 hadvance
              cases heq
              exact h.update_step hc hstage
          | link name info stage =>
              obtain ⟨⟨b', stage'⟩, hstage, heq⟩ := Option.map_eq_some_iff.1 hadvance
              cases heq
              exact ⟨own, h.link_step hc hstage⟩
      · cases hstep
  | fail i =>
      simp only [step] at hstep
      split at hstep
      · next c' hfail =>
          cases hstep
          obtain ⟨c, hc, hfail⟩ := Option.bind_eq_some_iff.1 hfail
          -- the condition: a rename does not fail halfway
          exact ⟨own, h.fail_step hc (hok c hc) hfail⟩
      · cases hstep

/-! ## Entries without a nuid -/

/-- An entry without a nuid tells of no chunks, unless it is deleted. -/
def Bare (info : ServerObjectInfo) : Prop :=
  info.isDeleted = false → info.nuid = none → info.chunks = none ∧ info.size = none

/-- The entry that a call is going to publish, or to make one from. -/
def carried : Call → Option ServerObjectInfo
  | .delete _ (.publishing info) => some info
  | .update _ _ (.targeting info) => some info
  | .update _ _ (.publishing info) => some info
  | _ => none

/-- All entries that are stored, or going to be. -/
structure AllBare (b : Bucket) (calls : List Call) : Prop where
  stored : ∀ m e, b.latest m = some e → Bare e
  carried : ∀ c ∈ calls, ∀ e, carried c = some e → Bare e

/-- A bucket into which an entry is published that tells of no chunks. -/
theorem bare_store {b : Bucket} {n subject : String} {e : ServerObjectInfo} {rollup : Bool}
    (hb : ∀ m e, b.latest m = some e → Bare e) (hsubject : b.metaSubject n = some subject)
    (he : Bare e) : ∀ m f, (b.store subject (.json e) rollup).latest m = some f → Bare f := by
  intro m f hf
  rw [Bucket.latest_store hsubject] at hf
  split at hf
  · cases hf
    exact he
  · exact hb m f hf

theorem bare_congr {b b' : Bucket} (hb : ∀ m e, b.latest m = some e → Bare e)
    (hlatest : ∀ m, b'.latest m = b.latest m) : ∀ m e, b'.latest m = some e → Bare e :=
  fun m e he => hb m e ((hlatest m).symm.trans he)

/-- What a call reads tells of no chunks either. -/
theorem bare_read {b : Bucket} {n : String} {info : ServerObjectInfo}
    (hb : ∀ m e, b.latest m = some e → Bare e) (hread : b.rawInfo n = .ok (some info)) :
    Bare info := by
  obtain ⟨stored, seq, hlatest, rfl⟩ := Bucket.latest_of_rawInfo hread
  exact hb n stored hlatest

theorem bare_put {b b' : Bucket} {call : PutCall} {stage stage' : PutStage}
    (hb : ∀ m e, b.latest m = some e → Bare e)
    (h : stage.advance sha256 b call = some (b', stage')) :
    ∀ m e, b'.latest m = some e → Bare e := by
  cases stage with
  | reading =>
      simp only [PutStage.advance] at h
      split at h <;>
        · cases h
          exact hb
  | writing old rest =>
      cases rest with
      | cons payload rest =>
          cases h
          exact bare_congr hb (Bucket.latest_store_chunk payload)
      | nil =>
          simp only [PutStage.advance] at h
          split at h
          · cases h
            exact hb
          · rename_i subject hsubject
            split at h
            · cases h
              exact hb
            · cases h
              -- the entry of a put has a nuid
              exact bare_store hb hsubject fun _ hnone => by cases hnone
  | published old =>
      cases old <;>
        · cases h
          exact hb
  | purging old =>
      cases h
      exact bare_congr hb Bucket.latest_purge_chunks
  | cleaning =>
      cases h
      exact bare_congr hb Bucket.latest_purge_chunks
  | finished => cases h

theorem bare_delete {b b' : Bucket} {n : String} {stage stage' : DeleteStage}
    (hb : ∀ m e, b.latest m = some e → Bare e)
    (hc : ∀ e, carried (.delete n stage) = some e → Bare e)
    (h : stage.advance b n = some (b', stage')) :
    (∀ m e, b'.latest m = some e → Bare e) ∧ ∀ e, carried (.delete n stage') = some e → Bare e := by
  cases stage with
  | reading =>
      simp only [DeleteStage.advance] at h
      split at h
      · cases h
        refine ⟨hb, fun e he => ?_⟩
        cases he
        exact fun hlive => by cases hlive
      · cases h
        exact ⟨hb, fun e he => by cases he⟩
  | publishing info =>
      simp only [DeleteStage.advance] at h
      split at h
      · cases h
        exact ⟨hb, fun e he => by cases he⟩
      · rename_i subject hsubject
        cases h
        exact ⟨bare_store hb hsubject (hc info rfl), fun e he => by cases he⟩
  | purging info =>
      cases h
      exact ⟨bare_congr hb Bucket.latest_purge_chunks, fun e he => by cases he⟩
  | finished => cases h

theorem bare_update {b b' : Bucket} {n : String} {change : ObjectStoreUpdate}
    {stage stage' : UpdateStage} (hb : ∀ m e, b.latest m = some e → Bare e)
    (hc : ∀ e, carried (.update n change stage) = some e → Bare e)
    (h : stage.advance b n change = some (b', stage')) :
    (∀ m e, b'.latest m = some e → Bare e) ∧
      ∀ e, carried (.update n change stage') = some e → Bare e := by
  -- the new fields are others
  have hassign : ∀ {info : ServerObjectInfo} {target : String}, Bare info →
      Bare (info.assign target change) := fun hinfo => hinfo
  have hnothing : ∀ {b'' : Bucket}, (∀ m e, b''.latest m = some e → Bare e) →
      ∀ {stage'' : UpdateStage}, carried (.update n change stage'') = none →
      (∀ m e, b''.latest m = some e → Bare e) ∧
        ∀ e, carried (.update n change stage'') = some e → Bare e := by
    intro b'' hb'' stage'' hnone
    refine ⟨hb'', fun e he => ?_⟩
    rw [hnone] at he
    cases he
  cases stage with
  | reading =>
      simp only [UpdateStage.advance] at h
      split at h
      · rename_i info hread
        have hinfo := bare_read hb hread
        split at h
        · cases h
          exact hnothing hb rfl
        · split at h
          · cases h
            refine ⟨hb, fun e he => ?_⟩
            cases he
            exact hinfo
          · cases h
            refine ⟨hb, fun e he => ?_⟩
            cases he
            exact hassign hinfo
      · cases h
        exact hnothing hb rfl
  | targeting info =>
      have hpublishing : ∀ e, carried (.update n change
          (.publishing (info.assign (change.name.getD info.name) change))) = some e → Bare e := by
        intro e he
        cases he
        exact hassign (hc info rfl)
      simp only [UpdateStage.advance] at h
      split at h
      · cases h
        exact hnothing hb rfl
      · split at h
        · cases h
          exact ⟨hb, hpublishing⟩
        · cases h
          exact hnothing hb rfl
      · cases h
        exact ⟨hb, hpublishing⟩
  | publishing info =>
      simp only [UpdateStage.advance] at h
      split at h
      · cases h
        exact hnothing hb rfl
      · rename_i subject hsubject
        cases h
        apply hnothing (bare_store hb hsubject (hc info rfl))
        split <;> rfl
  | purging =>
      simp only [UpdateStage.advance] at h
      split at h
      · cases h
        exact hnothing hb rfl
      · rename_i subject hsubject
        cases h
        refine hnothing (fun m e he => ?_) rfl
        rw [Bucket.latest_purge hsubject] at he
        split at he
        · cases he
        · exact hb m e he
  | finished => cases h

theorem bare_link {b b' : Bucket} {n : String} {info : ServerObjectInfo} {stage stage' : LinkStage}
    (hb : ∀ m e, b.latest m = some e → Bare e) (h : stage.advance b n info = some (b', stage')) :
    ∀ m e, b'.latest m = some e → Bare e := by
  cases stage with
  | reading =>
      simp only [LinkStage.advance] at h
      split at h
      · cases h
        exact hb
      · split at h <;>
          · cases h
            exact hb
  | publishing =>
      simp only [LinkStage.advance] at h
      split at h
      · cases h
        exact hb
      · rename_i subject hsubject
        cases h
        exact bare_store hb hsubject fun _ _ => ⟨rfl, rfl⟩
  | finished => cases h

/-- **One event**, whatever overlaps. -/
theorem bare_step {s s' : Clients} {e : ClientEvent} (h : AllBare s.bucket s.calls)
    (hstep : s.step sha256 e = some s') : AllBare s'.bucket s'.calls := by
  have hset : ∀ {i : Nat} {c' : Call}, (∀ e, carried c' = some e → Bare e) →
      ∀ c ∈ s.calls.set i c', ∀ e, carried c = some e → Bare e := by
    intro i c' hc' c hc
    rcases List.mem_or_eq_of_mem_set hc with hc | rfl
    · exact h.carried c hc
    · exact hc'
  cases e with
  | start op =>
      simp only [step, Option.map_eq_some_iff] at hstep
      obtain ⟨puts, -, rfl⟩ := hstep
      refine ⟨h.stored, fun c hc e he => ?_⟩
      rcases List.mem_append.1 hc with hc | hc
      · exact h.carried c hc e he
      · rw [List.mem_singleton.1 hc] at he
        cases op <;> cases he
  | advance i =>
      simp only [step] at hstep
      split at hstep
      · next b c' hadvance =>
          cases hstep
          obtain ⟨c, hc, hadvance⟩ := Option.bind_eq_some_iff.1 hadvance
          have hcarried := h.carried c (List.mem_of_getElem? hc)
          cases c with
          | put call stage =>
              obtain ⟨⟨b', stage'⟩, hstage, heq⟩ := Option.map_eq_some_iff.1 hadvance
              cases heq
              exact ⟨bare_put h.stored hstage, hset fun e he => by cases he⟩
          | delete name stage =>
              obtain ⟨⟨b', stage'⟩, hstage, heq⟩ := Option.map_eq_some_iff.1 hadvance
              cases heq
              obtain ⟨hstored, hcarried'⟩ := bare_delete h.stored hcarried hstage
              exact ⟨hstored, hset hcarried'⟩
          | update name change stage =>
              obtain ⟨⟨b', stage'⟩, hstage, heq⟩ := Option.map_eq_some_iff.1 hadvance
              cases heq
              obtain ⟨hstored, hcarried'⟩ := bare_update h.stored hcarried hstage
              exact ⟨hstored, hset hcarried'⟩
          | link name info stage =>
              obtain ⟨⟨b', stage'⟩, hstage, heq⟩ := Option.map_eq_some_iff.1 hadvance
              cases heq
              exact ⟨bare_link h.stored hstage, hset fun e he => by cases he⟩
      · cases hstep
  | fail i =>
      simp only [step] at hstep
      split at hstep
      · next c' hfail =>
          cases hstep
          obtain ⟨c, -, hfail⟩ := Option.bind_eq_some_iff.1 hfail
          -- a call that failed carries no entry to be stored
          refine ⟨h.stored, hset fun e he => ?_⟩
          unfold Call.fail at hfail
          split at hfail
          · obtain ⟨stage', -, rfl⟩ := Option.map_eq_some_iff.1 hfail
            cases he
          all_goals
            cases hfail
            try cases he
      · cases hstep

theorem bare_init (name : String) : AllBare (init name).bucket (init name).calls where
  stored := by
    intro m e he
    rw [latest_init] at he
    cases he
  carried := fun c hc => by cases hc

/-- In a quiet bucket no name is about to be purged. -/
theorem not_doomed_of_quiet {s : Clients} (hquiet : s.Quiet) (n : String) : ¬ s.Doomed n := by
  rintro ⟨i, c, hc, hdooms⟩
  have hidle := hquiet c (List.mem_of_getElem? hc)
  cases c with
  | put call stage => cases hdooms
  | delete name stage => cases hdooms
  | update name change stage =>
      cases stage with
      | purging => cases hidle
      | reading | targeting _ | publishing _ | finished => cases hdooms
  | link name info stage => cases hdooms

/-- **Objects are complete.** In every run in which no update overlaps a put or delete of the same
object, none that renames the object overlaps another update of it, and no put fails behind its
entry and no rename in front of its purge, the object of each entry of a quiet bucket that is not
deleted is there: all its chunks, in order and with the number and the size that the entry says. -/
theorem complete_of_apart (sha256 : StreamingHash) (name : String) (es : List ClientEvent)
    (s : Clients) (hrun : run (step sha256) (init name) es = some s)
    (hok : Meets (step sha256) Apart (init name) es) (hquiet : s.Quiet) (n : String)
    (info : ServerObjectInfo) (hread : s.bucket.rawInfo n = .ok (some info))
    (hlive : info.isDeleted = false) : Whole sha256 s.bucket s.puts info := by
  have hkeep : ∀ (s : Clients) (e : ClientEvent) (s' : Clients), (∃ own, Inv sha256 own s) →
      s.Apart e → s.step sha256 e = some s' → ∃ own, Inv sha256 own s' := fun _ _ _ => inv_step
  obtain ⟨own, hinv⟩ := invariant_run_of_meets hkeep hrun hok ⟨_, inv_init name⟩
  unfold Whole
  cases hid : info.nuid with
  | some id => exact (hinv.of_read hread (not_doomed_of_quiet hquiet n)).2.2 id hlive hid
  | none =>
      have hbare : AllBare s.bucket s.calls :=
        invariant_run (I := fun s => AllBare s.bucket s.calls) (fun _ _ _ => bare_step) hrun
          (bare_init name)
      obtain ⟨hchunks, hsize⟩ := bare_read hbare.stored hread hlive hid
      refine ⟨hchunks, hsize, ?_⟩
      rw [ServerObjectInfo.nuidText, hid]
      exact hinv.world.fresh _ hinv.world.named

/-- The put of `abc` under a name, with a nuid of its own. -/
def putAs (name id : String) : PutCall :=
  { putAbc with objMeta := { putAbc.objMeta with name := name }, id := id }

/-- An object `a` is put. -/
def putA : List ClientEvent :=
  [.start (.put (putAs "a" "N1")), .advance 0, .advance 0, .advance 0, .advance 0, .advance 0]

theorem complete_of_apart_putA :
    ∃ s info, run (step hashOfAbc) (init "b") putA = some s ∧
      s.bucket.rawInfo "a" = .ok (some info) ∧ info.nuid = some "N1" ∧
      Whole hashOfAbc s.bucket s.puts info := by
  have hends : (run (step hashOfAbc) (init "b") putA).any (fun s => decide (s.Quiet ∧
      (s.bucket.liveEntry "a").any fun info => info.nuid = some "N1")) = true := by decide +kernel
  obtain ⟨s, hrun, hs⟩ := (Option.any_eq_true _ _).1 hends
  obtain ⟨hquiet, hentry⟩ := of_decide_eq_true hs
  obtain ⟨info, hinfo, hid⟩ := (Option.any_eq_true _ _).1 hentry
  obtain ⟨hread, hlive, _⟩ := Bucket.liveEntry_some hinfo
  exact ⟨s, info, hrun, hread, of_decide_eq_true hid,
    complete_of_apart hashOfAbc "b" putA s hrun (by decide +kernel) hquiet "a" info hread hlive⟩

/-- An update of the description of `a` has read the entry of the put. -/
def putAndRead : List ClientEvent :=
  putA ++ [.start (.update "a" ⟨none, some "d", none, none, none⟩), .advance 1]

/-- Another put of `a` runs before the update publishes. -/
def putBetween : List ClientEvent :=
  putAndRead ++ [.start (.put (putAs "a" "N2")), .advance 2, .advance 2, .advance 2, .advance 2,
    .advance 2, .advance 2, .advance 1]

/-- A delete of `a` runs before the update publishes. -/
def deleteBetween : List ClientEvent :=
  putAndRead ++ [.start (.delete "a"), .advance 2, .advance 2, .advance 2, .advance 1]

/-- An update renames `a` to `b` before the other publishes, and then `b` is put. -/
def renameBetween : List ClientEvent :=
  putAndRead ++ [.start (.update "a" ⟨some "b", none, none, none, none⟩), .advance 2, .advance 2,
    .advance 2, .advance 2, .advance 1, .start (.put (putAs "b" "N2")), .advance 3, .advance 3,
    .advance 3, .advance 3, .advance 3, .advance 3]

/-- A rename of `a` to `b` fails before it has purged `a`, and then `b` is put. -/
def renameHalf : List ClientEvent :=
  putA ++ [.start (.update "a" ⟨some "b", none, none, none, none⟩), .advance 1,
    .advance 1, .advance 1, .fail 1, .start (.put (putAs "b" "N2")), .advance 2, .advance 2,
    .advance 2, .advance 2, .advance 2, .advance 2]

/-- The entry of a put of `a` is stored, and the answer is lost. -/
def answerLost : List ClientEvent :=
  [.start (.put (putAs "a" "N1")), .advance 0, .advance 0, .advance 0, .advance 0,
    .fail 0, .advance 0]

/-- The bucket is quiet, and `a` is an object of two chunks none of which is there. -/
def lost (s : Clients) : Bool :=
  decide s.Quiet && (s.bucket.liveEntry "a").any fun info =>
    info.nuid = some "N1" && info.chunks = some 2 && s.bucket.chunks "N1" = []

theorem not_complete_of_lost {s : Clients} (h : lost s = true) :
    s.Quiet ∧ ∃ info, s.bucket.rawInfo "a" = .ok (some info) ∧ info.isDeleted = false ∧
      info.link = none ∧ info.nuid = some "N1" ∧
      ¬ Complete hashOfAbc s.bucket s.puts info "N1" := by
  obtain ⟨hquiet, hentry⟩ := Bool.and_eq_true_iff.1 h
  refine ⟨of_decide_eq_true hquiet, ?_⟩
  obtain ⟨info, hinfo, hlost⟩ := (Option.any_eq_true _ _).1 hentry
  obtain ⟨hread, hlive, hlink⟩ := Bucket.liveEntry_some hinfo
  simp only [Bool.and_eq_true, decide_eq_true_eq] at hlost
  obtain ⟨⟨hid, hnumber⟩, hchunks⟩ := hlost
  refine ⟨info, hread, hlive, hlink, hid, ?_⟩
  rintro ⟨_, _, _, _, hcount, _⟩
  rw [hnumber, hchunks] at hcount
  cases hcount

/-- After the run all calls are done, and `a`, neither deleted nor a link, has lost its chunks. -/
def Loses (es : List ClientEvent) : Prop :=
  ∃ s, run (step hashOfAbc) (init "b") es = some s ∧ s.Quiet ∧
    ∃ info, s.bucket.rawInfo "a" = .ok (some info) ∧ info.isDeleted = false ∧ info.link = none ∧
      info.nuid = some "N1" ∧ ¬ Complete hashOfAbc s.bucket s.puts info "N1"

theorem loses_of_lost {es : List ClientEvent}
    (h : (run (step hashOfAbc) (init "b") es).any lost = true) : Loses es := by
  obtain ⟨s, hrun, hlost⟩ := (Option.any_eq_true _ _).1 h
  exact ⟨s, hrun, not_complete_of_lost hlost⟩

/-- **What may not happen**: each of these runs loses the chunks of an object. -/
theorem not_complete : Loses putBetween ∧ Loses deleteBetween ∧ Loses renameBetween ∧
    Loses renameHalf ∧ Loses answerLost := by
  refine ⟨loses_of_lost ?_, loses_of_lost ?_, loses_of_lost ?_, loses_of_lost ?_, loses_of_lost ?_⟩
  · decide +kernel
  · decide +kernel
  · decide +kernel
  · decide +kernel
  · decide +kernel

end Clients

end NatsClient.ObjectStore
