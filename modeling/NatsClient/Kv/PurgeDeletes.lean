import NatsClient.Kv.Create
import NatsClient.Kv.Watch

/-!
# Purging the deleted keys

Model of `purgeDeletes` (`kv.ts`): a watch collects the markers of the deleted keys until its
`initializedFn` is called; then the subject of each marker is purged, down to its last message where
the marker is young, and of all its messages where it is old. The subject is made of the key of the
entry, which is decoded. Other clients may write at any time, and the purges are applied in any
order.

A purge takes off whatever is there by then. A key that is written to behind its marker loses what
was put (`destroys_value`), and with a codec the decoded key names another subject.
`keeps_values_and_cleans` says where nothing of this happens, and what a run without writers leaves.
-/

set_option autoImplicit false

namespace NatsClient.Kv

open NatsClient.Foundation NatsClient.JetStream NatsClient.Iterator

/-- The request of `jsm.streams.purge`. -/
structure PurgeRequest where
  filter : Text
  keep : Nat
deriving DecidableEq, Repr

/-- A call of `purgeDeletes`: its watch, the time at which it went on behind it, and the purges that
are in flight. `failed` says that one of them was not applied; `lost` are the values that purges
took off although nobody had deleted them. -/
structure PurgeDeletes (E : Type) where
  watcher : Watcher E
  resumed : Option Nat
  requests : List PurgeRequest
  failed : Bool
  lost : List Msg

/-- What can happen: the watch or another client goes on, `purgeDeletes` goes on behind `await
done`, or the server applies a purge, or does not. -/
inductive PurgeEvent where
  | watch (e : WatchEvent)
  | resume (now : Nat)
  | purged (k : Nat)
  | failed (k : Nat)
deriving DecidableEq, Repr

/-- The key was deleted behind the message. -/
def deletedBehind (stream : Stream) (m : Msg) : Bool :=
  stream.msgs.any fun m' => m'.subject = m.subject && decide (m.seq < m'.seq) && m'.body.isMarker

/-- The values that are taken off a stream although nobody had deleted them. -/
def destroyed (stream stream' : Stream) : List Msg :=
  stream.msgs.filter fun m => !stream'.msgs.contains m && !m.body.isMarker &&
    !deletedBehind stream m

namespace PurgeDeletes

variable {E : Type}

/-- The options of the watch. -/
def watchOptions : KvWatchOptions := ⟨[['>']], .LastValue, false, false, 0⟩

/-- `initializedFn`, which resolves `done`. -/
def resolving : Effect E := ⟨none, none⟩

section

variable (b : Bucket) (olderMillis : Int)

/-- `purgeDeletes(olderMillis)` up to the `await` of its watch. -/
def start (stream : Stream) : Except Text (PurgeDeletes E) := do
  let watcher ← Watch.start b watchOptions stream
  return ⟨watcher, none, [], false, []⟩

/-- `buf`: the markers among the entries that were presented. -/
def buf (s : PurgeDeletes E) : List KvEntry :=
  (s.watcher.qi.yielded.filterMap id).filter fun e => e.operation = .DEL || e.operation = .PURGE

/-- The purge of a marker. -/
def purgeOf (now : Nat) (e : KvEntry) : PurgeRequest :=
  ⟨b.subjectForKey e.key false, if (now : Int) ≤ e.created + olderMillis then 1 else 0⟩

/-- One event; `none` where it cannot happen. -/
def step (s : PurgeDeletes E) : PurgeEvent → Option (PurgeDeletes E)
  | .watch e =>
      (s.watcher.step (Watch.callback b watchOptions) resolving e).map fun w =>
        { s with watcher := w }
  | .resume now =>
      -- `await done`, which `initializedFn` resolves
      if s.resumed = none ∧ s.watcher.subscribed = true ∧ 0 < s.watcher.invoked then
        some { s with
          watcher := { s.watcher with qi := s.watcher.qi.stop none }
          resumed := some now
          requests := s.buf.map (purgeOf b olderMillis now) }
      else none
  | .purged k =>
      match s.requests[k]? with
      | some r =>
          let stream := s.watcher.stream.purge r.filter r.keep
          some { s with
            watcher := { s.watcher with stream := stream }
            requests := s.requests.eraseIdx k
            lost := s.lost ++ destroyed s.watcher.stream stream }
      | none => none
  | .failed k =>
      if k < s.requests.length then
        some { s with requests := s.requests.eraseIdx k, failed := true } else none

end

/-- The last message of the list is a marker, if there is one. -/
def EndsDeleted (ms : List Msg) : Prop := ∀ m ∈ ms.getLast?, m.body.isMarker = true

/-- The purge finds its subject deleted: the last message is a marker, or where it stays, the one in
front of it. -/
def FindsDeleted (stream : Stream) (r : PurgeRequest) : Prop :=
  Literal r.filter ∧
    (EndsDeleted (stream.ofSubject r.filter) ∨ r.keep = 1 ∧
      EndsDeleted (stream.ofSubject r.filter).dropLast)

instance (ms : List Msg) : Decidable (EndsDeleted ms) :=
  inferInstanceAs (Decidable (∀ m ∈ ms.getLast?, _))

instance (stream : Stream) (r : PurgeRequest) : Decidable (FindsDeleted stream r) :=
  inferInstanceAs (Decidable (_ ∧ _))

/-- The condition on a step: a purge that is applied finds its subject deleted. -/
def Harmless (s : PurgeDeletes E) : PurgeEvent → Prop
  | .purged k => ∀ r ∈ s.requests[k]?, FindsDeleted s.watcher.stream r
  | .watch _ | .resume _ | .failed _ => True

instance (s : PurgeDeletes E) : (e : PurgeEvent) → Decidable (s.Harmless e)
  | .purged k => inferInstanceAs (Decidable (∀ r ∈ s.requests[k]?, _))
  | .watch _ | .resume _ | .failed _ => isTrue trivial

/-- No other client writes. -/
def Quiet (s : PurgeDeletes E) : PurgeEvent → Prop
  | .watch e => s.watcher.Quiet e
  | .resume _ | .purged _ | .failed _ => True

instance (s : PurgeDeletes E) : (e : PurgeEvent) → Decidable (s.Quiet e)
  | .watch e => inferInstanceAs (Decidable (s.watcher.Quiet e))
  | .resume _ | .purged _ | .failed _ => isTrue trivial

/-- The codec leaves the keys alone whose last message is a marker. -/
def NamesMarkers (b : Bucket) (stream : Stream) : Prop :=
  ∀ m, stream.lastFor m.subject = some m → m.body.isMarker = true →
    b.subjectForKey (b.jmToEntry m).key false = m.subject

/-- What is left of the keys: of a live one all its messages, of a deleted one its marker where it
is young, and nothing where it is old. -/
def Cleaned (b : Bucket) (olderMillis : Int) (now : Nat) (before behind : Stream) : Prop :=
  ∀ subject, subjectMatches (b.fullKeyName ['>']) subject = true →
    match before.lastFor subject with
    | none => behind.ofSubject subject = []
    | some m =>
        behind.ofSubject subject =
          if m.body.isMarker then if (now : Int) ≤ m.time + olderMillis then [m] else []
          else before.ofSubject subject

/-! ## What a purge takes off -/

section

variable {stream : Stream} {r : PurgeRequest} {m last : Msg} {ms : List Msg}

theorem lt_of_getLast? (hms : ms.Pairwise fun m m' => m.seq < m'.seq)
    (hlast : ms.getLast? = some last) (hm : m ∈ ms) (hne : m ≠ last) : m.seq < last.seq := by
  obtain ⟨front, rfl⟩ := List.getLast?_eq_some_iff.1 hlast
  rcases List.mem_append.1 hm with hm | hm
  · exact (List.pairwise_append.1 hms).2.2 m hm last (List.mem_singleton.2 rfl)
  · exact absurd (List.mem_singleton.1 hm) hne

theorem ofSubject_ordered (subject : Text) :
    (stream.ofSubject subject).Pairwise fun m m' => m.seq < m'.seq :=
  stream.ordered.sublist List.filter_sublist

/-- A value in front of a marker of its subject was deleted. -/
theorem deletedBehind_of_endsDeleted {subject : Text} (hms : ms.Sublist (stream.ofSubject subject))
    (hends : EndsDeleted ms) (hm : m ∈ ms) (hvalue : m.body.isMarker = false) :
    deletedBehind stream m = true := by
  obtain ⟨last, hlast⟩ : ∃ last, ms.getLast? = some last :=
    ⟨_, List.getLast?_eq_some_getLast (List.ne_nil_of_mem hm)⟩
  have hmarker := hends last hlast
  have hne : m ≠ last := by
    rintro rfl
    rw [hmarker] at hvalue
    cases hvalue
  have hlt := lt_of_getLast? ((ofSubject_ordered subject).sublist hms) hlast hm hne
  obtain ⟨hstored, hsubject⟩ := List.mem_filter.1 (hms.subset (List.mem_of_getLast? hlast))
  obtain ⟨-, hsubject'⟩ := List.mem_filter.1 (hms.subset hm)
  rw [decide_eq_true_eq] at hsubject hsubject'
  refine List.any_eq_true.2 ⟨last, hstored, ?_⟩
  simp [hsubject, hsubject', hlt, hmarker]

/-- **A purge that finds its subject deleted** destroys no value. -/
theorem destroyed_eq_nil (h : FindsDeleted stream r) :
    destroyed stream (stream.purge r.filter r.keep) = [] := by
  obtain ⟨hliteral, hends⟩ := h
  refine List.filter_eq_nil_iff.2 fun m hm hdestroyed => ?_
  simp only [Bool.and_eq_true, Bool.not_eq_true', List.contains_eq_mem,
    decide_eq_false_iff_not] at hdestroyed
  obtain ⟨⟨hgone, hvalue⟩, hlive⟩ := hdestroyed
  have hpurged : (stream.purge r.filter r.keep).ofSubject m.subject =
      if m.subject = r.filter then
        (stream.ofSubject r.filter).drop ((stream.ofSubject r.filter).length - r.keep)
      else stream.ofSubject m.subject :=
    StreamState.ofSubject_purge hliteral r.keep
  have hmem : m ∈ stream.ofSubject m.subject := List.mem_filter.2 ⟨hm, decide_eq_true rfl⟩
  have hgone' : m ∉ (stream.purge r.filter r.keep).ofSubject m.subject :=
    fun hmem => hgone (List.mem_of_mem_filter hmem)
  by_cases hsubject : m.subject = r.filter
  · rw [hsubject] at hmem
    rcases hends with hends | ⟨hkeep, hends⟩
    · rw [deletedBehind_of_endsDeleted (List.Sublist.refl _) hends hmem hvalue] at hlive
      cases hlive
    · -- the last message stays, so the value is in front of it
      rw [if_pos hsubject] at hpurged
      rw [hpurged, hkeep] at hgone'
      have hfront : m ∈ (stream.ofSubject r.filter).dropLast := by
        rw [List.dropLast_eq_take]
        rw [← List.take_append_drop ((stream.ofSubject r.filter).length - 1)
          (stream.ofSubject r.filter)] at hmem
        exact (List.mem_append.1 hmem).resolve_right hgone'
      rw [deletedBehind_of_endsDeleted (List.dropLast_sublist _) hends hfront hvalue] at hlive
      cases hlive
  · rw [if_neg hsubject] at hpurged
    exact hgone' (hpurged ▸ hmem)

end

section

variable {b : Bucket} {olderMillis : Int} {now : Nat} {s s' : PurgeDeletes E}

/-- **One event**, where purges find their subjects deleted. -/
theorem lost_step {e : PurgeEvent} (h : s.lost = []) (hok : s.Harmless e)
    (hs : s.step b olderMillis e = some s') : s'.lost = [] := by
  cases e with
  | watch e =>
      obtain ⟨w, -, rfl⟩ := Option.map_eq_some_iff.1 hs
      exact h
  | resume now =>
      simp only [step] at hs
      split at hs <;> cases hs
      exact h
  | purged k =>
      simp only [step] at hs
      split at hs
      · rename_i r hk
        cases hs
        show s.lost ++ _ = []
        rw [h, destroyed_eq_nil (hok r hk)]
        rfl
      · cases hs
  | failed k =>
      simp only [step] at hs
      split at hs <;> cases hs
      exact h

end

/-! ## Runs without writers -/

/-- The purge that a marker is to get. -/
def requestOf (olderMillis : Int) (now : Nat) (m : Msg) : PurgeRequest :=
  ⟨m.subject, if (now : Int) ≤ m.time + olderMillis then 1 else 0⟩

/-- What it leaves. -/
def leftOf (olderMillis : Int) (now : Nat) (m : Msg) : List Msg :=
  if (now : Int) ≤ m.time + olderMillis then [m] else []

/-- A key whose last message is a marker. -/
structure Marked (b : Bucket) (stream : Stream) (m : Msg) : Prop where
  last : stream.lastFor m.subject = some m
  marker : m.body.isMarker = true
  matched : subjectMatches (b.fullKeyName ['>']) m.subject = true

/-- Behind the watch: each key is as it was, or purged of a marker; and where no purge failed, each
marker has its purge in flight or behind it. -/
structure Purging (b : Bucket) (olderMillis : Int) (now : Nat) (before : Stream)
    (s : PurgeDeletes E) : Prop where
  requests : ∀ r ∈ s.requests, ∃ m, Marked b before m ∧ r = requestOf olderMillis now m
  left : ∀ subject, s.watcher.stream.ofSubject subject = before.ofSubject subject ∨
    ∃ m, Marked b before m ∧ m.subject = subject ∧
      s.watcher.stream.ofSubject subject = leftOf olderMillis now m
  due : s.failed = false → ∀ m, Marked b before m →
    requestOf olderMillis now m ∈ s.requests ∨
      s.watcher.stream.ofSubject m.subject = leftOf olderMillis now m

/-- The invariant of the runs without writers. -/
inductive Inv (b : Bucket) (olderMillis : Int) (before : Stream) (s : PurgeDeletes E) : Prop where
  | collecting (hresumed : s.resumed = none) (hrequests : s.requests = [])
      (hwatch : Watch.Inv b watchOptions s.watcher) (hstream : s.watcher.stream = before)
      (hinitial : s.watcher.initial =
        (Feed.create before .LastPerSubject (matchesAny [b.fullKeyName ['>']])).pending before)
  | purging (now : Nat) (hresumed : s.resumed = some now)
      (hpurging : Purging b olderMillis now before s)

section

variable {b : Bucket} {olderMillis : Int} {now : Nat} {before : Stream}
    {s s' : PurgeDeletes E} {m : Msg}

theorem start_eq (h : start b before = .ok s) :
    s = ⟨.new before .LastPerSubject [b.fullKeyName ['>']] true, none, [], false, []⟩ := by
  cases h
  rfl

theorem inv_start (h : start b before = .ok s) : Inv b olderMillis before s := by
  have hwatch : Watch.start b watchOptions before =
      .ok (Watcher.new before .LastPerSubject [b.fullKeyName ['>']] true : Watcher E) := rfl
  obtain rfl := start_eq h
  exact .collecting rfl rfl (Watch.inv_start hwatch) rfl rfl

/-! ### The markers that are collected -/

theorem lastSeqFor_eq (hm : m ∈ before.msgs) :
    before.lastSeqFor m.subject = m.seq ↔ before.lastFor m.subject = some m := by
  constructor
  · intro hseq
    have hpos : before.lastSeqFor m.subject ≠ 0 := by
      rw [hseq]
      exact Nat.ne_of_gt (before.seq_bounds m hm).1
    obtain ⟨last, hlast, hlastSeq⟩ := StreamState.lastFor_of_lastSeqFor hpos
    rw [hlast, eq_of_seq_eq before.ordered (StreamState.lastFor_mem hlast).1 hm
      (hlastSeq.trans hseq)]
  · intro hlast
    simp only [StreamState.lastSeqFor, hlast]

/-- The consumer selects the last message of each key. -/
theorem mem_initial :
    m ∈ (Feed.create before .LastPerSubject (matchesAny [b.fullKeyName ['>']])).pending before ↔
    before.lastFor m.subject = some m ∧ subjectMatches (b.fullKeyName ['>']) m.subject = true := by
  rw [Feed.mem_pending]
  simp only [Feed.create, DeliverPolicy.includes, matchesAny, List.isEmpty_cons, Bool.false_or,
    List.any_cons, List.any_nil, Bool.or_false,
    Bool.and_eq_true, Bool.or_eq_true, decide_eq_true_eq]
  constructor
  · rintro ⟨hm, -, hmatches, hnew | hlast⟩
    · exact absurd (before.seq_bounds m hm).2 (Nat.not_le.2 hnew)
    · exact ⟨(lastSeqFor_eq hm).1 hlast, hmatches⟩
  · rintro ⟨hlast, hmatches⟩
    have hm := (StreamState.lastFor_mem hlast).1
    exact ⟨hm, (before.seq_bounds m hm).1, hmatches, .inr ((lastSeqFor_eq hm).2 hlast)⟩

/-- What is presented are entries of what was delivered. -/
theorem mem_yielded {w : Watcher E} {v : Option KvEntry} (h : Watch.Inv b watchOptions w)
    (hv : v ∈ w.qi.yielded) : ∃ m ∈ w.initial, v = some (b.jmToEntry m) := by
  have hentries : v ∈ accepted (fun _ => true) (Watch.entries b watchOptions w.delivered) := by
    obtain ⟨-, -, htraced, -, -, -⟩ | ⟨-, -, -, -, htraced, -⟩ | ⟨-, -, -, htraced⟩ := h.status
    · exact htraced.yielded_le.subset hv
    · have happend := htraced.yielded_le.subset hv
      rw [accepted_append] at happend
      exact (List.mem_append.1 happend).resolve_right nofun
    · exact absurd (htraced.yielded_le.subset hv) List.not_mem_nil
  rw [Watch.accepted_entries] at hentries
  obtain ⟨m, hm, rfl⟩ := List.mem_map.1 hentries
  exact ⟨m, h.delivered ▸ List.mem_append_left _ (List.mem_of_mem_filter hm), rfl⟩

theorem operation_of_isMarker :
    (b.jmToEntry m).operation = .DEL ∨ (b.jmToEntry m).operation = .PURGE ↔
    m.body.isMarker = true := by
  rw [Body.isMarker, Bool.or_eq_true, decide_eq_true_eq, decide_eq_true_eq]
  show m.body.operation.getD .PUT = .DEL ∨ m.body.operation.getD .PUT = .PURGE ↔ _
  cases m.body.operation with
  | none => decide
  | some op => simp

/-- **The markers are collected**, all of them and nothing else. -/
theorem mem_buf {e : KvEntry} (h : Watch.Inv b watchOptions s.watcher)
    (hinvoked : 0 < s.watcher.invoked) (hinitial : s.watcher.initial =
      (Feed.create before .LastPerSubject (matchesAny [b.fullKeyName ['>']])).pending before) :
    e ∈ s.buf ↔ ∃ m, Marked b before m ∧ e = b.jmToEntry m := by
  have hbuf : e ∈ s.buf ↔ some e ∈ s.watcher.qi.yielded ∧
      (e.operation = .DEL ∨ e.operation = .PURGE) := by
    simp [buf]
  rw [hbuf]
  constructor
  · rintro ⟨hyielded, hoperation⟩
    obtain ⟨m, hm, hentry⟩ := mem_yielded h hyielded
    cases hentry
    rw [hinitial, mem_initial] at hm
    exact ⟨m, ⟨hm.1, operation_of_isMarker.1 hoperation, hm.2⟩, rfl⟩
  · rintro ⟨m, hmarked, rfl⟩
    have hm : m ∈ s.watcher.initial := hinitial ▸ mem_initial.2 ⟨hmarked.last, hmarked.matched⟩
    refine ⟨?_, operation_of_isMarker.2 hmarked.marker⟩
    exact (h.behind hinvoked hm).resolve_left nofun

/-- The purge of a marker whose key the codec leaves alone. -/
theorem purgeOf_marked (hmarked : Marked b before m) (hnames : NamesMarkers b before) :
    purgeOf b olderMillis now (b.jmToEntry m) = requestOf olderMillis now m := by
  have hsubject := hnames m hmarked.last hmarked.marker
  rw [purgeOf, hsubject]
  rfl

/-- `purgeDeletes` goes on behind `await done`. -/
theorem purging_resume (h : Watch.Inv b watchOptions s.watcher)
    (hstream : s.watcher.stream = before) (hinitial : s.watcher.initial =
      (Feed.create before .LastPerSubject (matchesAny [b.fullKeyName ['>']])).pending before)
    (hinvoked : 0 < s.watcher.invoked) (hnames : NamesMarkers b before) :
    Purging b olderMillis now before
      { s with
        watcher := { s.watcher with qi := s.watcher.qi.stop none }
        resumed := some now
        requests := s.buf.map (purgeOf b olderMillis now) } := by
  refine ⟨fun r hr => ?_, fun subject => .inl (hstream ▸ rfl), fun _ m hmarked => .inl ?_⟩
  · obtain ⟨e, he, rfl⟩ := List.mem_map.1 hr
    obtain ⟨m, hmarked, rfl⟩ := (mem_buf h hinvoked hinitial).1 he
    exact ⟨m, hmarked, purgeOf_marked hmarked hnames⟩
  · rw [← purgeOf_marked hmarked hnames]
    exact List.mem_map_of_mem ((mem_buf h hinvoked hinitial).2 ⟨m, hmarked, rfl⟩)

/-! ### The purges -/

/-- A purge of the messages of a marked key, or of what a purge has left of it. -/
theorem drop_ofSubject (hlast : before.lastFor m.subject = some m) :
    (before.ofSubject m.subject).drop
      ((before.ofSubject m.subject).length - (requestOf olderMillis now m).keep) =
      leftOf olderMillis now m := by
  obtain ⟨front, hfront⟩ := List.getLast?_eq_some_iff.1 hlast
  rw [hfront, requestOf, leftOf]
  split
  · rw [List.length_append, List.length_singleton, Nat.add_sub_cancel]
    exact List.drop_left
  · exact List.drop_length

theorem drop_leftOf :
    (leftOf olderMillis now m).drop
      ((leftOf olderMillis now m).length - (requestOf olderMillis now m).keep) =
      leftOf olderMillis now m := by
  rw [leftOf, requestOf]
  split <;> rfl

/-- **A purge is applied.** -/
theorem Purging.purged {k : Nat} {r : PurgeRequest} (h : Purging b olderMillis now before s)
    (hk : s.requests[k]? = some r) (hstored : ∀ m ∈ before.msgs, Literal m.subject) :
    Purging b olderMillis now before
      { s with
        watcher := { s.watcher with stream := s.watcher.stream.purge r.filter r.keep }
        requests := s.requests.eraseIdx k
        lost :=
          s.lost ++ destroyed s.watcher.stream (s.watcher.stream.purge r.filter r.keep) } := by
  obtain ⟨m, hmarked, rfl⟩ := h.requests r (List.mem_of_getElem? hk)
  have hliteral : Literal m.subject := hstored m (StreamState.lastFor_mem hmarked.last).1
  have hpurge : ∀ subject,
      (s.watcher.stream.purge m.subject (requestOf olderMillis now m).keep).ofSubject subject =
        if subject = m.subject then leftOf olderMillis now m
        else s.watcher.stream.ofSubject subject := by
    intro subject
    rw [StreamState.ofSubject_purge hliteral]
    by_cases hsubject : subject = m.subject
    · rw [if_pos hsubject, if_pos hsubject]
      rcases h.left m.subject with hsame | ⟨m', hmarked', hsubject', hleft⟩
      · rw [hsame]
        exact drop_ofSubject hmarked.last
      · -- it was purged before
        have hm' : m' = m := Option.some.inj (hmarked'.last.symm.trans (hsubject' ▸ hmarked.last))
        rw [hleft, hm']
        exact drop_leftOf
    · rw [if_neg hsubject, if_neg hsubject]
  refine ⟨fun r hr => h.requests r (List.mem_of_mem_eraseIdx hr), fun subject => ?_,
    fun hfailed m' hmarked' => ?_⟩
  · show (s.watcher.stream.purge m.subject _).ofSubject subject = _ ∨ ∃ m', _ ∧ _ ∧
      (s.watcher.stream.purge m.subject _).ofSubject subject = _
    rw [hpurge]
    by_cases hsubject : subject = m.subject
    · rw [if_pos hsubject]
      exact .inr ⟨m, hmarked, hsubject.symm, rfl⟩
    · rw [if_neg hsubject]
      exact h.left subject
  · show requestOf olderMillis now m' ∈ s.requests.eraseIdx k ∨
      (s.watcher.stream.purge m.subject _).ofSubject m'.subject = _
    rw [hpurge]
    by_cases hsubject : m'.subject = m.subject
    · have hm' : m' = m := Option.some.inj (hmarked'.last.symm.trans (hsubject ▸ hmarked.last))
      rw [if_pos hsubject, hm']
      exact .inr rfl
    · rw [if_neg hsubject]
      refine (h.due hfailed m' hmarked').imp_left fun hmem => ?_
      -- the purge of another key stays in flight
      obtain ⟨j, hj⟩ := List.mem_iff_getElem?.1 hmem
      refine List.mem_eraseIdx_iff_getElem?.2 ⟨j, ?_, hj⟩
      rintro rfl
      rw [hk] at hj
      exact hsubject (congrArg PurgeRequest.filter (Option.some.inj hj)).symm

/-- A quiet event of the watch leaves the stream alone. -/
theorem stream_of_quiet {w w' : Watcher E} {e : WatchEvent} (hquiet : w.Quiet e)
    (hs : w.step (Watch.callback b watchOptions) resolving e = some w') : w'.stream = w.stream := by
  cases e with
  | deliver =>
      simp only [Watcher.step] at hs
      split at hs
      · cases hs
      · cases hs
        unfold Watch.callback
        split
        · rfl
        · simp only
          split <;> rfl
  | created =>
      simp only [Watcher.step] at hs
      split at hs <;> cases hs
      rfl
  | subscribed =>
      simp only [Watcher.step] at hs
      split at hs
      · cases hs
        simp only [Watcher.afterSubscribe]
        split
        · split <;> rfl
        · rfl
      · cases hs
  | next =>
      simp only [Watcher.step] at hs
      obtain ⟨-, hsome⟩ := Option.ite_none_right_eq_some.1 hs
      obtain ⟨qi, -, rfl⟩ := Option.map_eq_some_iff.1 hsome
      rfl
  | publish p time | remove seq | purge filter keep => exact absurd hquiet id

/-- **One event**, without writers. -/
theorem Inv.step {e : PurgeEvent} (h : Inv b olderMillis before s) (hquiet : s.Quiet e)
    (hstored : ∀ m ∈ before.msgs, Literal m.subject) (hnames : NamesMarkers b before)
    (hs : s.step b olderMillis e = some s') : Inv b olderMillis before s' := by
  cases e with
  | watch e =>
      obtain ⟨w, hw, rfl⟩ := Option.map_eq_some_iff.1 hs
      have hstream' := stream_of_quiet hquiet hw
      obtain ⟨hresumed, hrequests, hwatch, hstream, hinitial⟩ | ⟨now, hresumed, hpurging⟩ := h
      · exact .collecting hresumed hrequests (Watch.inv_step hwatch hquiet hw)
          (hstream'.trans hstream) ((Watch.initial_of_step hw).trans hinitial)
      · refine .purging now hresumed ⟨hpurging.requests, fun subject => ?_,
          fun hfailed m hmarked => ?_⟩
        · show w.stream.ofSubject subject = _ ∨ ∃ m, _ ∧ _ ∧ w.stream.ofSubject subject = _
          rw [hstream']
          exact hpurging.left subject
        · show _ ∨ w.stream.ofSubject m.subject = _
          rw [hstream']
          exact hpurging.due hfailed m hmarked
  | resume now =>
      simp only [PurgeDeletes.step] at hs
      split at hs
      · rename_i hdone
        cases hs
        obtain ⟨-, -, hwatch, hstream, hinitial⟩ | ⟨now, hresumed, -⟩ := h
        · -- the watch has presented everything, so that the requests are of all markers
          exact .purging now rfl (purging_resume hwatch hstream hinitial hdone.2.2 hnames)
        · rw [hdone.1] at hresumed
          cases hresumed
      · cases hs
  | purged k =>
      simp only [PurgeDeletes.step] at hs
      split at hs
      · rename_i r hk
        cases hs
        obtain ⟨-, hrequests, -, -, -⟩ | ⟨now, hresumed, hpurging⟩ := h
        · rw [hrequests] at hk
          cases hk
        · exact .purging now hresumed (hpurging.purged hk hstored)
      · cases hs
  | failed k =>
      simp only [PurgeDeletes.step] at hs
      split at hs
      · rename_i hk
        cases hs
        obtain ⟨-, hrequests, -, -, -⟩ | ⟨now, hresumed, hpurging⟩ := h
        · rw [hrequests] at hk
          -- nothing is purged before the watch is over
          exact absurd hk (Nat.not_lt_zero k)
        · refine .purging now hresumed ⟨fun r hr => ?_, hpurging.left,
            fun hfailed => by cases hfailed⟩
          exact hpurging.requests r (List.mem_of_mem_eraseIdx hr)
      · cases hs

/-- **Behind the purges** the deleted keys are gone, but for the young markers. -/
theorem Purging.cleaned (h : Purging b olderMillis now before s) (hrequests : s.requests = [])
    (hfailed : s.failed = false) : Cleaned b olderMillis now before s.watcher.stream := by
  intro subject hmatched
  cases hlast : before.lastFor subject with
  | none =>
      have hnone : before.ofSubject subject = [] := List.getLast?_eq_none_iff.1 hlast
      rcases h.left subject with hsame | ⟨m, hmarked, rfl, -⟩
      · exact hsame.trans hnone
      · rw [hmarked.last] at hlast
        cases hlast
  | some m =>
      obtain rfl := (StreamState.lastFor_mem hlast).2
      show s.watcher.stream.ofSubject m.subject =
        if m.body.isMarker = true then leftOf olderMillis now m else before.ofSubject m.subject
      by_cases hmarker : m.body.isMarker = true
      · rw [if_pos hmarker]
        rcases h.due hfailed m ⟨hlast, hmarker, hmatched⟩ with hrequest | hleft
        · rw [hrequests] at hrequest
          cases hrequest
        · exact hleft
      · rw [if_neg hmarker]
        rcases h.left m.subject with hsame | ⟨m', hmarked, hsubject, -⟩
        · exact hsame
        · have hm' : m' = m := Option.some.inj (hmarked.last.symm.trans (hsubject ▸ hlast))
          exact absurd (hm' ▸ hmarked.marker) hmarker

end

/-- The purges are through. -/
def Finished (now : Nat) (s : PurgeDeletes E) : Prop :=
  s.resumed = some now ∧ s.requests = [] ∧ s.failed = false

/-- **What `purgeDeletes` destroys, and what it leaves.** In a run in which each purge that is
applied finds its subject deleted, no value is destroyed. In a run without writers, with a codec
that leaves the keys of the markers alone, the live keys are behind the purges as they were, and the
deleted ones are gone but for the markers that are young. -/
theorem keeps_values_and_cleans (b : Bucket) (olderMillis : Int) (stream : Stream)
    (s₀ s : PurgeDeletes E) (es : List PurgeEvent) (hstored : ∀ m ∈ stream.msgs, Literal m.subject)
    (hstart : start b stream = .ok s₀) (hrun : run (step b olderMillis) s₀ es = some s) :
    (Meets (step b olderMillis) Harmless s₀ es → s.lost = []) ∧
      (Meets (step b olderMillis) Quiet s₀ es → NamesMarkers b stream → ∀ now, s.Finished now →
        Cleaned b olderMillis now stream s.watcher.stream) := by
  constructor
  · intro hok
    have hnone : s₀.lost = [] := by rw [start_eq hstart]
    exact invariant_run_of_meets (I := fun s => s.lost = [])
      (fun _ _ _ h he hs => lost_step h he hs) hrun hok hnone
  · rintro hquiet hnames now ⟨hresumed, hrequests, hfailed⟩
    have hinv : Inv b olderMillis stream s :=
      invariant_run_of_meets (fun _ _ _ h he hs => h.step he hstored hnames hs) hrun hquiet
        (inv_start hstart)
    obtain ⟨hresumed', -, -, -, -⟩ | ⟨now', hresumed', hpurging⟩ := hinv
    · rw [hresumed] at hresumed'
      cases hresumed'
    · obtain rfl : now' = now := Option.some.inj (hresumed'.symm.trans hresumed)
      exact hpurging.cleaned hrequests hfailed

/-- A marker that is old, and a live key. -/
theorem keeps_values_and_cleans_old_marker :
    let b : Bucket := .plain noopCodec
    let stream : Stream := ((StreamState.empty 2 Nat.two_pos).append
      ⟨"$KV.b.a".toList, ⟨[], some .DEL⟩, false, none⟩ 0).append
      ⟨"$KV.b.c".toList, ⟨[1], none⟩, false, none⟩ 1
    ∃ s : PurgeDeletes Unit, s.lost = [] ∧ Cleaned b 10 100 stream s.watcher.stream ∧
      s.watcher.stream.msgs.length = 1 := by
  intro b stream
  let s₀ : PurgeDeletes Unit :=
    ⟨.new stream .LastPerSubject [b.fullKeyName ['>']] true, none, [], false, []⟩
  let es : List PurgeEvent :=
    [.watch .created, .watch .deliver, .watch .deliver, .watch .subscribed, .watch .next,
      .watch .next, .watch .next, .resume 100, .purged 0]
  have hends : (run (step b 10) s₀ es).any (fun s =>
      s.resumed = some 100 ∧ s.requests = [] ∧ s.failed = false ∧
      s.watcher.stream.msgs.length = 1) = true := by
    decide +kernel
  obtain ⟨s, hrun, hs⟩ := (Option.any_eq_true _ _).1 hends
  obtain ⟨hresumed, hrequests, hfailed, hlength⟩ := of_decide_eq_true hs
  have hstored : ∀ m ∈ stream.msgs, Literal m.subject := by decide +kernel
  obtain ⟨hkeeps, hcleans⟩ := keeps_values_and_cleans b 10 stream s₀ s es hstored rfl hrun
  refine ⟨s, hkeeps ?_, hcleans ?_ ?_ 100 ⟨hresumed, hrequests, hfailed⟩, hlength⟩
  · decide +kernel
  · decide +kernel
  · have hall : ∀ m ∈ stream.msgs, m.body.isMarker = true →
        b.subjectForKey (b.jmToEntry m).key false = m.subject := by
      decide +kernel
    exact fun m hlast => hall m (StreamState.lastFor_mem hlast).1

/-- A key that is put again while its purge is in flight loses its value. -/
theorem destroys_value :
    ¬ ∀ (b : Bucket) (olderMillis : Int) (stream : Stream) (s₀ s : PurgeDeletes Unit) (es : List
      PurgeEvent), start b stream = .ok s₀ → run (step b olderMillis) s₀ es = some s →
      s.lost = [] := by
  intro h
  let b : Bucket := .plain noopCodec
  let stream : Stream := (StreamState.empty 2 Nat.two_pos).append
    ⟨"$KV.b.a".toList, ⟨[], some .DEL⟩, false, none⟩ 0
  let s₀ : PurgeDeletes Unit :=
    ⟨.new stream .LastPerSubject [b.fullKeyName ['>']] true, none, [], false, []⟩
  let es : List PurgeEvent :=
    [.watch .created, .watch .deliver, .watch .subscribed, .watch .next, .watch .next, .resume 100,
      .watch (.publish ⟨"$KV.b.a".toList, ⟨[1], none⟩, false, none⟩ 100), .purged 0]
  have hends : (run (step b 10) s₀ es).any (fun s => s.lost.length = 1) = true := by decide +kernel
  obtain ⟨s, hrun, hs⟩ := (Option.any_eq_true _ _).1 hends
  have hlost := of_decide_eq_true hs
  rw [h b 10 stream s₀ s es rfl hrun] at hlost
  cases hlost

end PurgeDeletes

end NatsClient.Kv
