import NatsClient.Foundation.Run
import NatsClient.Kv.Bucket

/-!
# Concurrent edits of a bucket

Model of `create`, `put`, `update`, `delete` and `purge` (`kv.ts`) as calls of any number of
clients: each call sends its requests, the server handles the requests that are in flight in any
order, and the answers come back in any order, late, or not at all. A deletion with wildcards is one
call for each key it lists.

The server stores a publication only if the subject's last sequence is the one it expects. A `get`
is answered by the leader with the last message of the subject; on a bucket with direct access a
replica that is behind may answer, with any message the subject ever had.

`Inv` says which expectations are in flight: a `create` expects no message, or the sequence of a
delete marker. As sequences are not used twice, the server can only store it over that marker
(`create_linearizable`). `Told` says that what the callers are told was stored.
-/

set_option autoImplicit false

namespace NatsClient.Kv

open NatsClient.Foundation NatsClient.JetStream

/-- What a promise of a bucket is rejected with: an error of the API with its `err_code`, an
exception of the client's own, or a request that was not answered. -/
inductive Reason where
  | api (errCode : Nat)
  | thrown (message : Text)
  | unanswered
deriving DecidableEq, Repr

/-- The `err_code` of a wrong last sequence. -/
def wrongLastSequence : Nat := 10071

/-- The calls that edit a key. -/
inductive Call where
  | create (k : Text) (data : List UInt8)
  | put (k : Text) (data : List UInt8) (previousSeq : Option Nat)
  | update (k : Text) (data : List UInt8) (version : Int)
  | delete (k : Text) (previousSeq : Option Nat)
  | purge (k : Text) (previousSeq : Option Nat)
deriving DecidableEq, Repr

/-- Where a call is. -/
inductive Phase where
  | publishing
  | getting
  | updating
  | settled (result : Except Reason Nat)

/-- A call and where it is. -/
structure Caller where
  call : Call
  phase : Phase

/-- An answer of the server. -/
inductive Answer where
  | published (result : Except Nat Nat)
  | message (sm : Option Msg)

/-- The stream, the calls, and what is in flight with the number of its call. `past` are all
messages the stream ever had. -/
structure Clients where
  stream : Stream
  past : List Msg
  callers : List Caller
  requests : List (Nat × Publication Body)
  gets : List (Nat × Text)
  answers : List (Nat × Answer)

/-- What can happen. -/
inductive Event where
  | call (c : Call)
  | serve (n : Nat) (time : Nat)
  | refuse (n : Nat) (errCode : Nat)
  | serveGet (n : Nat) (sm : Option Msg)
  | answer (n : Nat)
  | lose (n : Nat)
  | fail (i : Nat)
  | remove (seq : Nat)

/-- `update(k, data, version)` up to its `publish`. -/
def Bucket.update (b : Bucket) (k : Text) (data : List UInt8) (version : Int) :
    Except Text (Publication Body) :=
  if version ≤ 0 then .error "version must be greater than 0".toList
  else b.put k data (some version.toNat)

/-- The first request of a call. -/
def Bucket.request (b : Bucket) : Call → Except Text (Publication Body)
  | .create k data => b.put k data (some 0)
  | .put k data previousSeq => b.put k data previousSeq
  | .update k data version => b.update k data version
  | .delete k previousSeq => b.doDeleteOrPurge k .DEL previousSeq
  | .purge k previousSeq => b.doDeleteOrPurge k .PURGE previousSeq

/-- A delete marker. -/
def Body.isMarker (body : Body) : Bool :=
  body.operation = some .DEL || body.operation = some .PURGE

namespace Clients

/-- A bucket's stream before any call. -/
def new (stream : Stream) : Clients := ⟨stream, stream.msgs, [], [], [], []⟩

/-- The call with this number. -/
def callOf (s : Clients) (i : Nat) : Option Call := (s.callers[i]?).map Caller.call

/-- Call `i` goes on to a phase. -/
def setPhase (s : Clients) (i : Nat) (phase : Phase) : Clients :=
  { s with callers := s.callers.modify i fun c => { c with phase := phase } }

/-- The promise of call `i` settles. -/
def settle (s : Clients) (i : Nat) (result : Except Reason Nat) : Clients :=
  s.setPhase i (.settled result)

/-- Call `i` publishes, unless it throws. -/
def publish (s : Clients) (i : Nat) (phase : Phase) : Except Text (Publication Body) → Clients
  | .ok p => { s.setPhase i phase with requests := s.requests ++ [(i, p)] }
  | .error message => s.settle i (.error (.thrown message))

section

variable (b : Bucket)

/-- A client calls. -/
def start (s : Clients) (c : Call) : Clients :=
  let s' : Clients := { s with callers := s.callers ++ [⟨c, .publishing⟩] }
  s'.publish s.callers.length .publishing (b.request c)

/-- `create` behind the rejection of its `put`: with another error than a wrong last sequence it is
rejected too, else it asks for the entry. -/
def afterRejection (s : Clients) (i : Nat) (k : Text) (errCode : Nat) : Clients :=
  if errCode ≠ wrongLastSequence then s.settle i (.error (.api errCode))
  else
    match b.getRequest k with
    | .ok subject => { s.setPhase i .getting with gets := s.gets ++ [(i, subject)] }
    | .error message => s.settle i (.error (.thrown message))

/-- `create` behind its `get`: it updates a delete marker, and is rejected with the first error
otherwise. -/
def afterGet (s : Clients) (i : Nat) (k : Text) (data : List UInt8) (sm : Option Msg) : Clients :=
  match b.getResponse k sm with
  | some e =>
      if e.operation = .DEL ∨ e.operation = .PURGE then
        s.publish i .updating (b.update k data e.revision)
      else s.settle i (.error (.api wrongLastSequence))
  | none => s.settle i (.error (.api wrongLastSequence))

/-- An answer reaches call `i`; it has no taker where the call was given up. -/
def receive (s : Clients) (i : Nat) (a : Answer) : Clients :=
  match s.callers[i]? with
  | none => s
  | some c =>
      match c.phase, a with
      | .publishing, .published (.ok seq) | .updating, .published (.ok seq) => s.settle i (.ok seq)
      | .updating, .published (.error errCode) => s.settle i (.error (.api errCode))
      -- only `create` goes on behind a rejection
      | .publishing, .published (.error errCode) =>
          match c.call with
          | .create k _ => s.afterRejection b i k errCode
          | .put .. | .update .. | .delete .. | .purge .. => s.settle i (.error (.api errCode))
      | .getting, .message sm =>
          match c.call with
          | .create k data => s.afterGet b i k data sm
          | .put .. | .update .. | .delete .. | .purge .. => s
      | .settled _, _ | .getting, .published _ | .publishing, .message _ | .updating, .message _ =>
          s

end

section

variable (route : Text → Text)

/-- A publication as the stream sees it. -/
def routed (p : Publication Body) : Publication Body := { p with subject := route p.subject }

/-- The server handles a publication of call `i`. -/
def serve (s : Clients) (i : Nat) (p : Publication Body) (time : Nat) : Clients :=
  -- the expected sequence is compared as the message is stored
  if s.stream.accepts (routed route p) then
    { s with
      stream := s.stream.append (routed route p) time
      past := s.past ++ [⟨route p.subject, s.stream.lastSeq + 1, time, p.body⟩]
      answers := s.answers ++ [(i, .published (.ok (s.stream.lastSeq + 1)))] }
  else { s with answers := s.answers ++ [(i, .published (.error wrongLastSequence))] }

end

/-- The server may answer a request for the last message of a subject so. -/
def MayAnswer (s : Clients) (direct : Bool) (subject : Text) (sm : Option Msg) : Prop :=
  sm = s.stream.lastFor subject ∨
    (direct = true ∧ ∀ m, sm = some m → m ∈ s.past ∧ m.subject = subject)

instance (s : Clients) (direct : Bool) (subject : Text) (sm : Option Msg) :
    Decidable (s.MayAnswer direct subject sm) :=
  have : Decidable (∀ m, sm = some m → m ∈ s.past ∧ m.subject = subject) :=
    match sm with
    | none => isTrue fun _ h => by cases h
    | some m =>
        decidable_of_iff (m ∈ s.past ∧ m.subject = subject)
          ⟨fun h _ heq => Option.some.inj heq ▸ h, fun h => h m rfl⟩
  instDecidableOr

section

variable (b : Bucket) (route : Text → Text) (direct : Bool)

/-- One event; `none` where it cannot happen. -/
def step (s : Clients) : Event → Option Clients
  | .call c => some (s.start b c)
  | .serve n time =>
      match s.requests[n]? with
      | some (i, p) => some ({ s with requests := s.requests.eraseIdx n }.serve route i p time)
      | none => none
  | .refuse n errCode =>
      match s.requests[n]? with
      | some (i, _) =>
          some { s with
            requests := s.requests.eraseIdx n
            answers := s.answers ++ [(i, .published (.error errCode))] }
      | none => none
  | .serveGet n sm =>
      match s.gets[n]? with
      | some (i, subject) =>
          if s.MayAnswer direct subject sm then
            some { s with gets := s.gets.eraseIdx n, answers := s.answers ++ [(i, .message sm)] }
          else none
      | none => none
  | .answer n =>
      match s.answers[n]? with
      | some (i, a) => some ({ s with answers := s.answers.eraseIdx n }.receive b i a)
      | none => none
  | .lose n => some { s with answers := s.answers.eraseIdx n }
  -- a timeout, or a connection that was closed: what is in flight stays in flight
  | .fail i =>
      match s.callers[i]? with
      | some ⟨_, .settled _⟩ | none => none
      | some _ => some (s.settle i (.error .unanswered))
  | .remove seq => some { s with stream := s.stream.remove seq }

/-- In this step the server stores publication `p` of call `i`. -/
def Stores (s : Clients) (e : Event) (i : Nat) (p : Publication Body) : Prop :=
  ∃ n time, e = .serve n time ∧ s.requests[n]? = some (i, p) ∧
    s.stream.accepts (routed route p) = true

end

/-! ## The expectations in flight -/

/-- The subject that edits of the key are published on. -/
def editSubject (b : Bucket) (k : Text) : Text := b.subjectForKey (b.encodeKey k) true

/-- What a publication of the call may expect and carry. -/
def Allowed (b : Bucket) (past : List Msg) : Call → Publication Body → Prop
  | .create k data, p =>
      p.subject = editSubject b k ∧ p.body = ⟨data, none⟩ ∧
        (p.expectedLastSubjectSequence = some 0 ∨
          ∃ m ∈ past, m.body.isMarker = true ∧ p.expectedLastSubjectSequence = some m.seq)
  | .put k data previousSeq, p =>
      p.subject = editSubject b k ∧ p.body = ⟨data, none⟩ ∧
        p.expectedLastSubjectSequence = previousSeq
  | .update k data version, p =>
      p.subject = editSubject b k ∧ p.body = ⟨data, none⟩ ∧ 0 < version ∧
        p.expectedLastSubjectSequence = some version.toNat
  | .delete k _, p | .purge k _, p => p.subject = editSubject b k ∧ p.body.isMarker = true

/-- The invariant of every run. -/
structure Inv (b : Bucket) (s : Clients) : Prop where
  past_ordered : s.past.Pairwise fun m m' => m.seq < m'.seq
  past_le : ∀ m ∈ s.past, m.seq ≤ s.stream.lastSeq
  msgs_past : ∀ m ∈ s.stream.msgs, m ∈ s.past
  requests : ∀ r ∈ s.requests, ∃ c, s.callOf r.1 = some c ∧ Allowed b s.past c r.2
  /-- What a `get` was answered with was stored once. -/
  answers : ∀ r ∈ s.answers, ∀ m, r.2 = .message (some m) → m ∈ s.past

section

variable {b : Bucket} {route : Text → Text} {direct : Bool} {s s' : Clients} {p : Publication Body}
  {k : Text} {data : List UInt8}

theorem put_spec {previousSeq : Option Nat} (h : b.put k data previousSeq = .ok p) :
    p.subject = editSubject b k ∧ p.body = ⟨data, none⟩ ∧
      p.expectedLastSubjectSequence = previousSeq := by
  cases hvalid : validateKey (b.encodeKey k) with
  | error e =>
      simp only [Bucket.put, hvalid] at h
      cases h
  | ok u =>
      simp only [Bucket.put, hvalid] at h
      cases h
      exact ⟨rfl, rfl, rfl⟩

theorem update_spec {version : Int} (h : b.update k data version = .ok p) :
    p.subject = editSubject b k ∧ p.body = ⟨data, none⟩ ∧ 0 < version ∧
      p.expectedLastSubjectSequence = some version.toNat := by
  unfold Bucket.update at h
  split at h
  · cases h
  · rename_i hversion
    obtain ⟨hsubject, hbody, hexpected⟩ := put_spec h
    exact ⟨hsubject, hbody, by omega, hexpected⟩

theorem doDeleteOrPurge_spec {op : Operation} {previousSeq : Option Nat}
    (h : b.doDeleteOrPurge k op previousSeq = .ok p) :
    p.subject = editSubject b k ∧ p.body = ⟨[], some op⟩ := by
  cases hvalid : validateKey (b.encodeKey k) with
  | error e =>
      simp only [Bucket.doDeleteOrPurge, hvalid] at h
      cases h
  | ok u =>
      simp only [Bucket.doDeleteOrPurge, hvalid] at h
      cases h
      exact ⟨rfl, rfl⟩

/-- The first request of a call. -/
theorem allowed_request (past : List Msg) {c : Call} (h : b.request c = .ok p) :
    Allowed b past c p := by
  cases c with
  | create k data =>
      obtain ⟨hsubject, hbody, hexpected⟩ := put_spec h
      exact ⟨hsubject, hbody, Or.inl hexpected⟩
  | put k data previousSeq => exact put_spec h
  | update k data version => exact update_spec h
  | delete k previousSeq =>
      obtain ⟨hsubject, hbody⟩ := doDeleteOrPurge_spec h
      exact ⟨hsubject, by rw [hbody]; rfl⟩
  | purge k previousSeq =>
      obtain ⟨hsubject, hbody⟩ := doDeleteOrPurge_spec h
      exact ⟨hsubject, by rw [hbody]; rfl⟩

theorem Allowed.mono {past past' : List Msg} {c : Call} (h : Allowed b past c p)
    (hsub : ∀ m ∈ past, m ∈ past') : Allowed b past' c p := by
  cases c with
  | create k data =>
      obtain ⟨hsubject, hbody, h0 | ⟨m, hm, hmarker, hexpected⟩⟩ := h
      · exact ⟨hsubject, hbody, Or.inl h0⟩
      · exact ⟨hsubject, hbody, Or.inr ⟨m, hsub m hm, hmarker, hexpected⟩⟩
  | put k data previousSeq => exact h
  | update k data version => exact h
  | delete k previousSeq => exact h
  | purge k previousSeq => exact h

theorem callOf_setPhase (i j : Nat) (phase : Phase) :
    (s.setPhase i phase).callOf j = s.callOf j := by
  simp only [callOf, setPhase, List.getElem?_modify]
  cases s.callers[j]? with
  | none => rfl
  | some c =>
      simp only [Option.map_eq_map, Option.map_some]
      split <;> rfl

/-- Only phases of calls change. -/
theorem Inv.setPhase (h : Inv b s) (i : Nat) (phase : Phase) : Inv b (s.setPhase i phase) where
  past_ordered := h.past_ordered
  past_le := h.past_le
  msgs_past := h.msgs_past
  requests := by
    intro r hr
    obtain ⟨c, hc, hallowed⟩ := h.requests r hr
    exact ⟨c, (callOf_setPhase i r.1 phase).trans hc, hallowed⟩
  answers := h.answers

theorem Inv.publish (h : Inv b s) {i : Nat} {c : Call} (hc : s.callOf i = some c) (phase : Phase)
    {r : Except Text (Publication Body)} (hr : ∀ p, r = .ok p → Allowed b s.past c p) :
    Inv b (s.publish i phase r) := by
  cases r with
  | error message => exact h.setPhase i _
  | ok p =>
      have hphase := h.setPhase i phase
      refine ⟨hphase.past_ordered, hphase.past_le, hphase.msgs_past, ?_, hphase.answers⟩
      intro r hmem
      rcases List.mem_append.1 hmem with hmem | hmem
      · exact hphase.requests r hmem
      · rw [List.mem_singleton.1 hmem]
        exact ⟨c, (callOf_setPhase i i phase).trans hc, hr p rfl⟩

/-- A new call has a new number. -/
theorem callOf_grown (c : Call) {j : Nat} {c' : Call} (hj : s.callOf j = some c') :
    ({ s with callers := s.callers ++ [⟨c, .publishing⟩] } : Clients).callOf j = some c' := by
  obtain ⟨caller, hget, hcaller⟩ := Option.map_eq_some_iff.1 hj
  have hlt := (List.getElem?_eq_some_iff.1 hget).1
  simp only [callOf, List.getElem?_append_left hlt, hget, Option.map_some, hcaller]

theorem Inv.start (h : Inv b s) (c : Call) : Inv b (s.start b c) := by
  have hgrown : Inv b { s with callers := s.callers ++ [⟨c, .publishing⟩] } := by
    refine ⟨h.past_ordered, h.past_le, h.msgs_past, ?_, h.answers⟩
    intro r hr
    obtain ⟨c', hc', hallowed⟩ := h.requests r hr
    exact ⟨c', callOf_grown c hc', hallowed⟩
  apply hgrown.publish (c := c)
  · simp [callOf]
  · intro p hp
    exact allowed_request _ hp

/-- The retry of a `create` expects the marker it was shown. -/
theorem Inv.afterGet (h : Inv b s) {i : Nat} (hc : s.callOf i = some (.create k data))
    {sm : Option Msg} (hsm : ∀ m, sm = some m → m ∈ s.past) : Inv b (s.afterGet b i k data sm) := by
  unfold Clients.afterGet
  cases hresponse : b.getResponse k sm with
  | none => exact h.setPhase i _
  | some e =>
      simp only
      split
      · rename_i hmarker
        apply h.publish hc
        intro p hp
        obtain ⟨hsubject, hbody, hpos, hexpected⟩ := update_spec hp
        -- the entry was made of a message that was stored, under its sequence
        cases sm with
        | none => cases hresponse
        | some m =>
            simp only [Bucket.getResponse] at hresponse
            split at hresponse
            · cases hresponse
            · cases hresponse
              refine ⟨hsubject, hbody, Or.inr ⟨m, hsm m rfl, ?_, hexpected.trans ?_⟩⟩
              · cases hop : m.body.operation with
                | none => simp [Bucket.smToEntry, hop] at hmarker
                | some op => simpa [Bucket.smToEntry, hop, Body.isMarker] using hmarker
              · exact congrArg some (Int.toNat_natCast m.seq)
      · exact h.setPhase i _

theorem Inv.receive (h : Inv b s) {i : Nat} {a : Answer}
    (ha : ∀ m, a = .message (some m) → m ∈ s.past) : Inv b (s.receive b i a) := by
  unfold Clients.receive
  cases hi : s.callers[i]? with
  | none => exact h
  | some c =>
      have hcall : s.callOf i = some c.call := by simp only [callOf, hi, Option.map_some]
      simp only
      split
      · exact h.setPhase i _
      · exact h.setPhase i _
      · exact h.setPhase i _
      · split
        · rename_i k data hcreate
          unfold Clients.afterRejection
          split
          · exact h.setPhase i _
          · split
            · have hphase := h.setPhase i .getting
              exact ⟨hphase.past_ordered, hphase.past_le, hphase.msgs_past, hphase.requests,
                hphase.answers⟩
            · exact h.setPhase i _
        all_goals exact h.setPhase i _
      · rename_i sm _
        split
        · rename_i k data hcreate
          rw [hcreate] at hcall
          apply h.afterGet hcall
          intro m hm
          exact ha m (by rw [hm])
        all_goals exact h
      all_goals exact h

/-- What is behind a publication in the stream was stored. -/
theorem Inv.serve (h : Inv b s) (i : Nat) (p : Publication Body) (time : Nat) :
    Inv b (s.serve route i p time) := by
  have hanswers : ∀ result, ∀ r ∈ s.answers ++ [(i, Answer.published result)], ∀ m,
      r.2 = .message (some m) → m ∈ s.past := by
    intro result r hr m hm
    rcases List.mem_append.1 hr with hr | hr
    · exact h.answers r hr m hm
    · rw [List.mem_singleton.1 hr] at hm
      cases hm
  unfold Clients.serve
  split
  · refine ⟨?_, ?_, ?_, ?_, ?_⟩
    · refine List.pairwise_append.2 ⟨h.past_ordered, List.pairwise_singleton _ _, ?_⟩
      intro m hm m' hm'
      rw [List.mem_singleton.1 hm']
      exact Nat.lt_succ_of_le (h.past_le m hm)
    · intro m hm
      rw [StreamState.lastSeq_append]
      rcases List.mem_append.1 hm with hm | hm
      · exact Nat.le_succ_of_le (h.past_le m hm)
      · exact (congrArg StoredMsg.seq (List.mem_singleton.1 hm)).le
    · intro m hm
      rcases StreamState.mem_append hm with hm | hm
      · exact List.mem_append_left _ (h.msgs_past m hm)
      · exact List.mem_append_right _ (List.mem_singleton.2 hm)
    · intro r hr
      obtain ⟨c, hc, hallowed⟩ := h.requests r hr
      exact ⟨c, hc, hallowed.mono fun m hm => List.mem_append_left _ hm⟩
    · intro r hr m hm
      exact List.mem_append_left _ (hanswers _ r hr m hm)
  · exact ⟨h.past_ordered, h.past_le, h.msgs_past, h.requests, hanswers _⟩

/-- Requests and answers leave. -/
theorem Inv.of_sublists (h : Inv b s) {requests : List (Nat × Publication Body)}
    {gets : List (Nat × Text)} {answers : List (Nat × Answer)}
    (hrequests : requests.Sublist s.requests) (hanswers : ∀ r ∈ answers, ∀ m,
      r.2 = .message (some m) → m ∈ s.past) :
    Inv b { s with requests := requests, gets := gets, answers := answers } :=
  ⟨h.past_ordered, h.past_le, h.msgs_past, fun r hr => h.requests r (hrequests.subset hr), hanswers⟩

/-- **What one event does.** -/
inductive Step (b : Bucket) (route : Text → Text) (direct : Bool) (s : Clients) :
    Event → Clients → Prop where
  | call (c : Call) : Step b route direct s (.call c) (s.start b c)
  | serve (n time i : Nat) (p : Publication Body) (hn : s.requests[n]? = some (i, p)) :
      Step b route direct s (.serve n time)
        ({ s with requests := s.requests.eraseIdx n }.serve route i p time)
  | refuse (n errCode i : Nat) (p : Publication Body) (hn : s.requests[n]? = some (i, p)) :
      Step b route direct s (.refuse n errCode)
        { s with
          requests := s.requests.eraseIdx n
          answers := s.answers ++ [(i, .published (.error errCode))] }
  | serveGet (n i : Nat) (subject : Text) (sm : Option Msg) (hn : s.gets[n]? = some (i, subject))
      (hmay : s.MayAnswer direct subject sm) :
      Step b route direct s (.serveGet n sm)
        { s with gets := s.gets.eraseIdx n, answers := s.answers ++ [(i, .message sm)] }
  | answer (n i : Nat) (a : Answer) (hn : s.answers[n]? = some (i, a)) :
      Step b route direct s (.answer n)
        ({ s with answers := s.answers.eraseIdx n }.receive b i a)
  | lose (n : Nat) : Step b route direct s (.lose n) { s with answers := s.answers.eraseIdx n }
  | fail (i : Nat) : Step b route direct s (.fail i) (s.settle i (.error .unanswered))
  | remove (seq : Nat) :
      Step b route direct s (.remove seq) { s with stream := s.stream.remove seq }

theorem step_of_eq {e : Event} (hstep : s.step b route direct e = some s') :
    Step b route direct s e s' := by
  cases e with
  | call c =>
      cases hstep
      exact .call c
  | serve n time =>
      cases hn : s.requests[n]? with
      | none =>
          simp only [step, hn] at hstep
          cases hstep
      | some r =>
          simp only [step, hn, Option.some.injEq] at hstep
          exact hstep ▸ .serve n time r.1 r.2 hn
  | refuse n errCode =>
      cases hn : s.requests[n]? with
      | none =>
          simp only [step, hn] at hstep
          cases hstep
      | some r =>
          simp only [step, hn, Option.some.injEq] at hstep
          exact hstep ▸ .refuse n errCode r.1 r.2 hn
  | serveGet n sm =>
      cases hn : s.gets[n]? with
      | none =>
          simp only [step, hn] at hstep
          cases hstep
      | some r =>
          simp only [step, hn] at hstep
          obtain ⟨hmay, hsome⟩ := Option.ite_none_right_eq_some.1 hstep
          exact Option.some.inj hsome ▸ .serveGet n r.1 r.2 sm hn hmay
  | answer n =>
      cases hn : s.answers[n]? with
      | none =>
          simp only [step, hn] at hstep
          cases hstep
      | some r =>
          simp only [step, hn, Option.some.injEq] at hstep
          exact hstep ▸ .answer n r.1 r.2 hn
  | lose n =>
      cases hstep
      exact .lose n
  | fail i =>
      simp only [step] at hstep
      split at hstep
      · cases hstep
      · cases hstep
      · cases hstep
        exact .fail i
  | remove seq =>
      cases hstep
      exact .remove seq

/-- **One event.** -/
theorem inv_step {e : Event} (h : Inv b s) (hstep : s.step b route direct e = some s') :
    Inv b s' := by
  cases step_of_eq hstep with
  | call c => exact h.start c
  | serve n time i p hn =>
      apply Inv.serve
      exact h.of_sublists (List.eraseIdx_sublist _ _) h.answers
  | refuse n errCode i p hn =>
      apply h.of_sublists (List.eraseIdx_sublist _ _)
      intro r hr m hm
      rcases List.mem_append.1 hr with hr | hr
      · exact h.answers r hr m hm
      · rw [List.mem_singleton.1 hr] at hm
        cases hm
  | serveGet n i subject sm hn hmay =>
      apply h.of_sublists (List.Sublist.refl _)
      intro r hr m hm
      rcases List.mem_append.1 hr with hr | hr
      · exact h.answers r hr m hm
      · rw [List.mem_singleton.1 hr] at hm
        injection hm with hm
        -- the leader answers from the stream, a replica with what was stored once
        rcases hmay with hleader | ⟨-, hreplica⟩
        · rw [hm] at hleader
          exact h.msgs_past m (StreamState.lastFor_mem hleader.symm).1
        · exact (hreplica m hm).1
  | answer n i a hn =>
      have herased : Inv b { s with answers := s.answers.eraseIdx n } :=
        h.of_sublists (List.Sublist.refl _) fun r hr =>
          h.answers r (List.mem_of_mem_eraseIdx hr)
      apply herased.receive
      intro m hm
      exact h.answers (i, a) (List.mem_of_getElem? hn) m hm
  | lose n =>
      exact h.of_sublists (List.Sublist.refl _) fun r hr =>
        h.answers r (List.mem_of_mem_eraseIdx hr)
  | fail i => exact h.setPhase i _
  | remove seq =>
      refine ⟨h.past_ordered, h.past_le, ?_, h.requests, h.answers⟩
      intro m hm
      exact h.msgs_past m (List.mem_of_mem_filter hm)

theorem inv_new (stream : Stream) : Inv b (new stream) where
  past_ordered := stream.ordered
  past_le := fun m hm => (stream.seq_bounds m hm).2
  msgs_past := fun _ hm => hm
  requests := fun r hr => by cases hr
  answers := fun r hr => by cases hr

/-! ## What is stored -/

/-- A write of the call that the state of the stream in front of it allows. -/
def Legal (b : Bucket) (route : Text → Text) (stream : Stream) : Call → Publication Body → Prop
  | .create k data, p =>
      p.subject = editSubject b k ∧ p.body = ⟨data, none⟩ ∧
        ∀ m, stream.lastFor (route p.subject) = some m → m.body.isMarker = true
  | .update k data version, p =>
      p.subject = editSubject b k ∧ p.body = ⟨data, none⟩ ∧
        ∃ m, stream.lastFor (route p.subject) = some m ∧ (m.seq : Int) = version
  | .put k data _, p => p.subject = editSubject b k ∧ p.body = ⟨data, none⟩
  | .delete k _, p | .purge k _, p => p.subject = editSubject b k ∧ p.body.isMarker = true

theorem accepts_routed (haccepts : s.stream.accepts (routed route p) = true) {seq : Nat}
    (hexpected : p.expectedLastSubjectSequence = some seq) :
    s.stream.lastSeqFor (route p.subject) = seq := by
  simpa only [StreamState.accepts, routed, hexpected, decide_eq_true_eq] using haccepts

/-- **What the server stores for a call is legal.** -/
theorem legal_of_stores {e : Event} {i : Nat} (h : Inv b s) (hstores : s.Stores route e i p) :
    ∃ c, s.callOf i = some c ∧ Legal b route s.stream c p := by
  obtain ⟨n, time, -, hn, haccepts⟩ := hstores
  obtain ⟨c, hc, hallowed⟩ := h.requests _ (List.mem_of_getElem? hn)
  refine ⟨c, hc, ?_⟩
  cases c with
  | create k data =>
      obtain ⟨hsubject, hbody, hexpected⟩ := hallowed
      refine ⟨hsubject, hbody, fun m hm => ?_⟩
      rcases hexpected with hexpected | ⟨marker, hpast, hmarker, hexpected⟩
      · -- the stream had no message of the subject
        have hnone := StreamState.lastFor_eq_none (accepts_routed haccepts hexpected)
        rw [hnone] at hm
        cases hm
      · have hlast := accepts_routed haccepts hexpected
        simp only [StreamState.lastSeqFor, hm] at hlast
        have hm' := h.msgs_past m (StreamState.lastFor_mem hm).1
        rw [eq_of_seq_eq h.past_ordered hm' hpast hlast]
        exact hmarker
  | put k data previousSeq => exact ⟨hallowed.1, hallowed.2.1⟩
  | update k data version =>
      obtain ⟨hsubject, hbody, hpos, hexpected⟩ := hallowed
      have hlast := accepts_routed haccepts hexpected
      have hne : s.stream.lastSeqFor (route p.subject) ≠ 0 := by omega
      obtain ⟨m, hm, hseq⟩ := StreamState.lastFor_of_lastSeqFor hne
      exact ⟨hsubject, hbody, m, hm, by omega⟩
  | delete k previousSeq => exact hallowed
  | purge k previousSeq => exact hallowed

theorem stream_publish (i : Nat) (phase : Phase) (r : Except Text (Publication Body)) :
    (s.publish i phase r).stream = s.stream := by
  cases r <;> rfl

theorem stream_receive (i : Nat) (a : Answer) : (s.receive b i a).stream = s.stream := by
  unfold Clients.receive
  split
  · rfl
  · split
    any_goals rfl
    · split
      · unfold Clients.afterRejection
        split
        · rfl
        · split <;> rfl
      all_goals rfl
    · split
      · unfold Clients.afterGet
        split
        · split
          · exact stream_publish _ _ _
          · rfl
        · rfl
      all_goals rfl

/-- **What changes the stream**: a publication is stored, or a message is removed. -/
theorem stream_of_step {e : Event} (hstep : s.step b route direct e = some s') :
    (∃ i p time, s.Stores route e i p ∧ s'.stream = s.stream.append (routed route p) time) ∨
    (∃ seq, e = .remove seq ∧ s'.stream = s.stream.remove seq) ∨ s'.stream = s.stream := by
  cases step_of_eq hstep with
  | call c => exact Or.inr (Or.inr (stream_publish _ _ _))
  | serve n time i p hn =>
      unfold Clients.serve
      split
      · rename_i haccepts
        exact Or.inl ⟨i, p, time, ⟨n, time, rfl, hn, haccepts⟩, rfl⟩
      · exact Or.inr (Or.inr rfl)
  | answer n i a hn => exact Or.inr (Or.inr (stream_receive _ _))
  | refuse | serveGet | lose | fail => exact Or.inr (Or.inr rfl)
  | remove seq => exact Or.inr (Or.inl ⟨seq, rfl, rfl⟩)

end

/-! ## One create -/

section

variable (route : Text → Text)

/-- The event neither stores a delete marker on the subject nor removes its last message. -/
def Undisturbed (subject : Text) (s : Clients) : Event → Prop
  | .serve n _ => ∀ i p, s.requests[n]? = some (i, p) → route p.subject = subject →
      p.body.isMarker = false
  | .remove seq => s.stream.lastSeqFor subject ≠ seq
  | .call _ | .refuse .. | .serveGet .. | .answer _ | .lose _ | .fail _ => True

/-- The last message of the subject is a value. -/
def Live (subject : Text) (s : Clients) : Prop :=
  ∃ m, s.stream.lastFor subject = some m ∧ m.body.isMarker = false

end

section

variable {b : Bucket} {route : Text → Text} {direct : Bool} {s s' : Clients} {subject : Text}

/-- A value stays until it is deleted. -/
theorem live_step {e : Event} (hlive : Live subject s)
    (hundisturbed : Undisturbed route subject s e) (hstep : s.step b route direct e = some s') :
    Live subject s' := by
  obtain ⟨m, hm, hmarker⟩ := hlive
  unfold Live
  rcases stream_of_step hstep with ⟨i, p, time, ⟨n, time', rfl, hn, -⟩, hstream⟩ |
    ⟨seq, rfl, hstream⟩ | hstream
  · rw [hstream]
    by_cases hsubject : route p.subject = subject
    · have hvalue := hundisturbed i p hn hsubject
      subst hsubject
      exact ⟨_, StreamState.lastFor_append, hvalue⟩
    · exact ⟨m, (StreamState.lastFor_append_of_ne fun h => hsubject h.symm).trans hm, hmarker⟩
  · rw [hstream]
    exact ⟨m, StreamState.lastFor_remove hundisturbed hm, hmarker⟩
  · rw [hstream]
    exact ⟨m, hm, hmarker⟩

/-- What a `create` stored is a value. -/
theorem live_of_create {e : Event} {i : Nat} {p : Publication Body} {k : Text} {data : List UInt8}
    (h : Inv b s) (hstores : s.Stores route e i p) (hc : s.callOf i = some (.create k data))
    (hstep : s.step b route direct e = some s') : Live (route p.subject) s' := by
  obtain ⟨c, hc', hlegal⟩ := legal_of_stores h hstores
  rw [hc] at hc'
  cases hc'
  obtain ⟨n, time, rfl, hn, haccepts⟩ := hstores
  simp only [step, hn, Option.some.injEq] at hstep
  rw [← hstep]
  simp only [serve, if_pos haccepts]
  refine ⟨_, StreamState.lastFor_append, ?_⟩
  show p.body.isMarker = false
  rw [hlegal.2.1]
  rfl

end

/-! ## What the callers are told -/

/-- In the run, call `i` is stored with this sequence: `s₁` is the state in front of it, and `e` the
event that stores it. -/
structure StoredIn (b : Bucket) (route : Text → Text) (direct : Bool) (stream : Stream)
    (es : List Event) (i seq : Nat) (es₁ : List Event) (s₁ : Clients) (e : Event)
    (p : Publication Body) : Prop where
  /-- Where in the run. -/
  split : ∃ es₂, es = es₁ ++ e :: es₂
  run_eq : run (step b route direct) (new stream) es₁ = some s₁
  stores : s₁.Stores route e i p
  seq_eq : seq = s₁.stream.lastSeq + 1

/-- The call resolves with a sequence. -/
def Resolves (s : Clients) (i : Nat) (c : Call) (seq : Nat) : Prop :=
  s.callers[i]? = some ⟨c, .settled (.ok seq)⟩

/-- What the callers are told, and will be told, was stored: `R i seq` says that call `i` was stored
with the sequence. -/
structure Told (R : Nat → Nat → Prop) (s : Clients) : Prop where
  answers : ∀ i seq, (i, .published (.ok seq)) ∈ s.answers → R i seq
  settled : ∀ i c seq, s.Resolves i c seq → R i seq

section

variable {b : Bucket} {route : Text → Text} {direct : Bool} {s s' : Clients} {R : Nat → Nat → Prop}

theorem told_new (stream : Stream) : Told R (new stream) where
  answers := fun _ _ h => by cases h
  settled := fun _ _ _ h => by cases h

/-- What is in flight may change in what does not tell of a store. -/
theorem Told.of_answers (h : Told R s) {requests : List (Nat × Publication Body)}
    {gets : List (Nat × Text)} {answers : List (Nat × Answer)} (stream : Stream) (past : List Msg)
    (hanswers : ∀ i seq, (i, .published (.ok seq)) ∈ answers → R i seq) :
    Told R ⟨stream, past, s.callers, requests, gets, answers⟩ :=
  ⟨hanswers, h.settled⟩

theorem Told.setPhase (h : Told R s) {i : Nat} {phase : Phase}
    (hphase : ∀ seq, phase = .settled (.ok seq) → R i seq) : Told R (s.setPhase i phase) where
  answers := h.answers
  settled := by
    intro j c seq hj
    unfold Resolves Clients.setPhase at hj
    rw [List.getElem?_modify] at hj
    obtain ⟨caller, hcaller, hj⟩ := Option.map_eq_some_iff.1 hj
    by_cases hij : i = j
    · subst hij
      rw [if_pos rfl] at hj
      exact hphase seq (congrArg Caller.phase hj)
    · rw [if_neg hij] at hj
      exact h.settled j c seq (hcaller.trans (congrArg some hj))

/-- A promise that is rejected tells of no store. -/
theorem Told.settle_error (h : Told R s) (i : Nat) (reason : Reason) :
    Told R (s.settle i (.error reason)) :=
  h.setPhase fun _ heq => by cases heq

theorem Told.publish (h : Told R s) (i : Nat) {phase : Phase}
    (hphase : ∀ result, phase ≠ .settled result) (r : Except Text (Publication Body)) :
    Told R (s.publish i phase r) := by
  cases r with
  | error message => exact h.settle_error i _
  | ok p =>
      have hset : Told R (s.setPhase i phase) := h.setPhase fun seq heq => (hphase _ heq).elim
      exact ⟨hset.answers, hset.settled⟩

theorem Told.start (h : Told R s) (c : Call) : Told R (s.start b c) := by
  apply Told.publish
  · refine ⟨h.answers, ?_⟩
    intro j c' seq hj
    replace hj : (s.callers ++ [⟨c, .publishing⟩])[j]? = _ := hj
    rw [List.getElem?_append] at hj
    by_cases hlt : j < s.callers.length
    · rw [if_pos hlt] at hj
      exact h.settled j c' seq hj
    · rw [if_neg hlt] at hj
      have hmem := List.mem_singleton.1 (List.mem_of_getElem? hj)
      cases hmem
  · intro result heq
    cases heq

theorem Told.receive (h : Told R s) {i : Nat} {a : Answer}
    (ha : ∀ seq, a = .published (.ok seq) → R i seq) : Told R (s.receive b i a) := by
  unfold Clients.receive
  split
  · exact h
  · split
    -- the two publications that were stored
    · rename_i seq _
      exact h.setPhase fun seq' heq => by
        cases heq
        exact ha _ rfl
    · rename_i seq _
      exact h.setPhase fun seq' heq => by
        cases heq
        exact ha _ rfl
    · exact h.settle_error i _
    · split
      · unfold Clients.afterRejection
        split
        · exact h.settle_error i _
        · split
          · have hphase : Told R (s.setPhase i .getting) := h.setPhase fun _ heq => by cases heq
            exact ⟨hphase.answers, hphase.settled⟩
          · exact h.settle_error i _
      all_goals exact h.settle_error i _
    · split
      · unfold Clients.afterGet
        split
        · split
          · apply h.publish
            intro result heq
            cases heq
          · exact h.settle_error i _
        · exact h.settle_error i _
      all_goals exact h
    all_goals exact h

/-- **One event tells of the stores so far and of its own.** -/
theorem told_step {e : Event} (h : Told R s)
    (hstores : ∀ i p, s.Stores route e i p → R i (s.stream.lastSeq + 1))
    (hstep : s.step b route direct e = some s') : Told R s' := by
  -- an answer on top of the others tells of a store only if it has a sequence
  have hanswers : ∀ {j : Nat} {a : Answer}, (∀ seq, a = .published (.ok seq) → R j seq) →
      ∀ i seq, (i, Answer.published (.ok seq)) ∈ s.answers ++ [(j, a)] → R i seq := by
    intro j a ha i seq hmem
    rcases List.mem_append.1 hmem with hmem | hmem
    · exact h.answers i seq hmem
    · cases List.mem_singleton.1 hmem
      exact ha seq rfl
  cases step_of_eq hstep with
  | call c => exact h.start c
  | serve n time i p hn =>
      unfold Clients.serve
      split
      · rename_i haccepts
        refine h.of_answers _ _ (hanswers fun seq hseq => ?_)
        cases hseq
        exact hstores i p ⟨n, time, rfl, hn, haccepts⟩
      · exact h.of_answers _ _ (hanswers fun seq hseq => by cases hseq)
  | refuse n errCode i p hn => exact h.of_answers _ _ (hanswers fun seq hseq => by cases hseq)
  | serveGet n i subject sm hn hmay =>
      exact h.of_answers _ _ (hanswers fun seq hseq => by cases hseq)
  | answer n i a hn =>
      apply Told.receive
      · apply h.of_answers
        intro i seq hmem
        exact h.answers i seq (List.mem_of_mem_eraseIdx hmem)
      · intro seq heq
        apply h.answers
        rw [← heq]
        exact List.mem_of_getElem? hn
  | lose n =>
      apply h.of_answers
      intro i seq hmem
      exact h.answers i seq (List.mem_of_mem_eraseIdx hmem)
  | fail i => exact h.settle_error i _
  | remove seq => exact h.of_answers _ _ h.answers

/-- **A call that resolves was stored**, with the sequence it resolves with. -/
theorem storedIn_of_resolves {stream : Stream} {es : List Event}
    (hrun : run (step b route direct) (new stream) es = some s) {i : Nat} {c : Call} {seq : Nat}
    (h : s.Resolves i c seq) :
    ∃ es₁ s₁ e p, StoredIn b route direct stream es i seq es₁ s₁ e p := by
  have htold : Told (fun i seq => ∃ es₁ s₁ e p, StoredIn b route direct stream es i seq es₁ s₁ e p)
      s := by
    have hstored : Meets (step b route direct) (fun s e => ∀ i p, s.Stores route e i p →
        ∃ es₁ s₁ e p, StoredIn b route direct stream es i (s.stream.lastSeq + 1) es₁ s₁ e p)
        (new stream) es := by
      apply meets_of_forall_split
      intro es₁ e es₂ s₁ hes hprefix i p hstores
      exact ⟨es₁, s₁, e, p, ⟨es₂, hes⟩, hprefix, hstores, rfl⟩
    exact invariant_run_of_meets (fun _ _ _ h hok hstep => told_step h hok hstep) hrun hstored
      (told_new stream)
  exact htold.settled i c seq h

end

section

variable {b : Bucket} {route : Text → Text} {direct : Bool} {s s' : Clients}

/-- Sequences only grow. -/
theorem lastSeq_step {e : Event} (hstep : s.step b route direct e = some s') :
    s.stream.lastSeq ≤ s'.stream.lastSeq := by
  rcases stream_of_step hstep with ⟨i, p, time, -, hstream⟩ | ⟨seq, -, hstream⟩ | hstream
  · rw [hstream, StreamState.lastSeq_append]
    exact Nat.le_succ _
  · exact (congrArg StreamState.lastSeq hstream).ge
  · exact (congrArg StreamState.lastSeq hstream).ge

/-- The sequence of a store is the stream's last one behind it. -/
theorem lastSeq_of_stores {e : Event} {i : Nat} {p : Publication Body}
    (hstores : s.Stores route e i p) (hstep : s.step b route direct e = some s') :
    s'.stream.lastSeq = s.stream.lastSeq + 1 := by
  obtain ⟨n, time, rfl, hn, haccepts⟩ := hstores
  simp only [step, hn, Option.some.injEq] at hstep
  rw [← hstep]
  simp only [serve, if_pos haccepts]
  exact StreamState.lastSeq_append ..

/-- **No other create is stored behind a create**, before the key is deleted or its message
removed. -/
theorem not_stored_again (hinv : Inv b s) {e : Event} {i : Nat} {p : Publication Body} {k : Text}
    {data : List UInt8} {s₁ : Clients} {es : List Event} {s₂ : Clients} {e' : Event} {j : Nat}
    {p' : Publication Body} {k' : Text} {data' : List UInt8} (hstores : s.Stores route e i p)
    (hc : s.callOf i = some (.create k data)) (hstep : s.step b route direct e = some s₁)
    (hrun : run (step b route direct) s₁ es = some s₂)
    (hmeets : Meets (step b route direct) (Undisturbed route (route p.subject)) s₁ es)
    (hstores' : s₂.Stores route e' j p') (hsubject : route p'.subject = route p.subject) :
    s₂.callOf j ≠ some (.create k' data') := by
  intro hc'
  have hinv₂ : Inv b s₂ :=
    invariant_run (fun _ _ _ h hstep => inv_step h hstep) hrun (inv_step hinv hstep)
  -- the value stays live up to the second store, which could only be made over a marker
  obtain ⟨m, hm, hmarker⟩ := invariant_run_of_meets (fun _ _ _ h hok hstep => live_step h hok hstep)
    hrun hmeets (live_of_create hinv hstores hc hstep)
  obtain ⟨c, hcall, hlegal⟩ := legal_of_stores hinv₂ hstores'
  rw [hc'] at hcall
  cases hcall
  have hmarker' := hlegal.2.2 m (hsubject ▸ hm)
  rw [hmarker] at hmarker'
  cases hmarker'

theorem callOf_publish (i j : Nat) (phase : Phase) (r : Except Text (Publication Body)) :
    (s.publish i phase r).callOf j = s.callOf j := by
  cases r with
  | error message => exact callOf_setPhase i j _
  | ok p => exact callOf_setPhase i j phase

theorem callOf_receive (i j : Nat) (a : Answer) : (s.receive b i a).callOf j = s.callOf j := by
  unfold Clients.receive
  split
  · rfl
  · split
    · exact callOf_setPhase ..
    · exact callOf_setPhase ..
    · exact callOf_setPhase ..
    · split
      · unfold Clients.afterRejection
        split
        · exact callOf_setPhase ..
        · split <;> exact callOf_setPhase ..
      all_goals exact callOf_setPhase ..
    · split
      · unfold Clients.afterGet
        split
        · split
          · exact callOf_publish ..
          · exact callOf_setPhase ..
        · exact callOf_setPhase ..
      all_goals rfl
    all_goals rfl

/-- The call of a number never changes. -/
theorem callOf_step {e : Event} {j : Nat} {c : Call} (hc : s.callOf j = some c)
    (hstep : s.step b route direct e = some s') : s'.callOf j = some c := by
  cases step_of_eq hstep with
  | call c' => exact (callOf_publish ..).trans (callOf_grown c' hc)
  | serve n time i p hn =>
      unfold Clients.serve
      split <;> exact hc
  | answer n i a hn => exact (callOf_receive ..).trans hc
  | fail i => exact (callOf_setPhase ..).trans hc
  | refuse | serveGet | lose | remove => exact hc

/-- Where a call that resolves was stored, with what it is and what that means. -/
theorem legal_of_resolves {stream : Stream} {es : List Event}
    (hrun : run (step b route direct) (new stream) es = some s) {i : Nat} {c : Call} {seq : Nat}
    (h : s.Resolves i c seq) :
    ∃ es₁ s₁ e p, StoredIn b route direct stream es i seq es₁ s₁ e p ∧
      s₁.callOf i = some c ∧ Legal b route s₁.stream c p := by
  obtain ⟨es₁, s₁, e, p, hstored⟩ := storedIn_of_resolves hrun h
  refine ⟨es₁, s₁, e, p, hstored, ?_⟩
  have hinv₁ : Inv b s₁ :=
    invariant_run (fun _ _ _ h hstep => inv_step h hstep) hstored.run_eq (inv_new stream)
  obtain ⟨c', hc', hlegal⟩ := legal_of_stores hinv₁ hstored.stores
  -- the call at the end of the run is the one that was stored
  obtain ⟨es₂, rfl⟩ := hstored.split
  obtain ⟨s₁', hrun₁, hrest⟩ := run_append_inv hrun
  cases hstored.run_eq.symm.trans hrun₁
  have hend : s.callOf i = some c' :=
    invariant_run (I := fun s => s.callOf i = some c') (fun _ _ _ h hstep => callOf_step h hstep)
      hrest hc'
  have hcall : s.callOf i = some c := congrArg (Option.map Caller.call) h
  cases hend.symm.trans hcall
  exact ⟨hc', hlegal⟩

/-- Of two stores in a run, the later one has the larger sequence. -/
theorem StoredIn.before {stream : Stream} {es : List Event} {i j seq seq' : Nat}
    {es₁ es₂ : List Event} {s₁ s₂ : Clients} {e₁ e₂ : Event} {p₁ p₂ : Publication Body}
    (h₁ : StoredIn b route direct stream es i seq es₁ s₁ e₁ p₁)
    (h₂ : StoredIn b route direct stream es j seq' es₂ s₂ e₂ p₂) (hle : es₁.length ≤ es₂.length) :
    i = j ∨ seq < seq' ∧ ∃ t between, es₂ = es₁ ++ e₁ :: between ∧
      s₁.step b route direct e₁ = some t ∧ run (step b route direct) t between = some s₂ := by
  obtain ⟨rest₁, hsplit₁⟩ := h₁.split
  obtain ⟨rest₂, hsplit₂⟩ := h₂.split
  obtain ⟨between, rfl⟩ : ∃ between, es₂ = es₁ ++ between := by
    rcases List.append_eq_append_iff.1 (hsplit₁.symm.trans hsplit₂) with
      ⟨between, heq, -⟩ | ⟨between, rfl, -⟩
    · exact ⟨between, heq⟩
    · rw [List.length_append] at hle
      have hnil : between = [] := List.eq_nil_of_length_eq_zero (by omega)
      exact ⟨[], by rw [hnil, List.append_nil, List.append_nil]⟩
  obtain ⟨s₁', hrun₁, hrun₂⟩ := run_append_inv h₂.run_eq
  cases h₁.run_eq.symm.trans hrun₁
  rw [List.append_assoc] at hsplit₂
  have hrest := List.append_cancel_left (hsplit₁.symm.trans hsplit₂)
  cases between with
  | nil =>
      -- one event stores for one call
      cases hrun₂
      cases hrest
      obtain ⟨n, time, rfl, hn, -⟩ := h₁.stores
      obtain ⟨n', time', heq, hn', -⟩ := h₂.stores
      cases heq
      cases hn.symm.trans hn'
      exact Or.inl rfl
  | cons e between =>
      cases hrest
      obtain ⟨t, hstep, hrun₂⟩ := run_cons_inv hrun₂
      have hle : t.stream.lastSeq ≤ s₂.stream.lastSeq :=
        invariant_run (I := fun s => t.stream.lastSeq ≤ s.stream.lastSeq)
          (fun _ _ _ h hstep => h.trans (lastSeq_step hstep)) hrun₂ le_rfl
      have hlast := lastSeq_of_stores h₁.stores hstep
      have hseq := h₁.seq_eq
      have hseq' := h₂.seq_eq
      exact Or.inr ⟨by omega, t, between, rfl, hstep, hrun₂⟩

/-- Two calls are not stored with one sequence. -/
theorem ne_of_resolve {stream : Stream} {es : List Event}
    (hrun : run (step b route direct) (new stream) es = some s) {i j : Nat} {c c' : Call}
    {seq seq' : Nat} (hi : s.Resolves i c seq) (hj : s.Resolves j c' seq') (hne : i ≠ j) :
    seq ≠ seq' := by
  obtain ⟨es₁, s₁, e₁, p₁, h₁⟩ := storedIn_of_resolves hrun hi
  obtain ⟨es₂, s₂, e₂, p₂, h₂⟩ := storedIn_of_resolves hrun hj
  rcases le_total es₁.length es₂.length with hle | hle
  · obtain heq | ⟨hlt, -⟩ := h₁.before h₂ hle
    · exact absurd heq hne
    · exact hlt.ne
  · obtain heq | ⟨hlt, -⟩ := h₂.before h₁ hle
    · exact absurd heq.symm hne
    · exact hlt.ne'

/-- Two creates of a key that resolve, the one with the smaller sequence first. -/
theorem disturbed_of_resolve {stream : Stream} {es : List Event}
    (hrun : run (step b route direct) (new stream) es = some s) {i j : Nat} {k k' : Text}
    {data data' : List UInt8} {seq seq' : Nat} (hi : s.Resolves i (.create k data) seq)
    (hj : s.Resolves j (.create k' data') seq') (hne : i ≠ j) (hlt : seq < seq')
    (hsubject : route (editSubject b k) = route (editSubject b k')) :
    ∃ es₁ es₂ es₃ s₁ s₂, es = es₁ ++ (es₂ ++ es₃) ∧
      run (step b route direct) (new stream) es₁ = some s₁ ∧
      run (step b route direct) s₁ es₂ = some s₂ ∧
      s₁.stream.lastSeq = seq ∧ s₂.stream.lastSeq + 1 = seq' ∧
      ¬ Meets (step b route direct) (Undisturbed route (route (editSubject b k))) s₁ es₂ := by
  obtain ⟨es₁, s₁, e₁, p₁, h₁, hc₁, hlegal₁⟩ := legal_of_resolves hrun hi
  obtain ⟨es₂, s₂, e₂, p₂, h₂, hc₂, hlegal₂⟩ := legal_of_resolves hrun hj
  rcases le_total es₁.length es₂.length with hle | hle
  · obtain heq | ⟨-, t, between, hes₂, hstep, hrun₂⟩ := h₁.before h₂ hle
    · exact absurd heq hne
    · obtain ⟨rest, hsplit⟩ := h₂.split
      refine ⟨es₁ ++ [e₁], between, e₂ :: rest, t, s₂, ?_, ?_, hrun₂, ?_, h₂.seq_eq.symm, ?_⟩
      · rw [hsplit, hes₂]
        simp only [List.append_assoc, List.cons_append, List.nil_append]
      · exact run_append h₁.run_eq (run_cons hstep run_nil)
      · rw [lastSeq_of_stores h₁.stores hstep, h₁.seq_eq]
      · -- undisturbed, the later create would not have been stored
        intro hmeets
        have hinv : Inv b s₁ :=
          invariant_run (fun _ _ _ h hstep => inv_step h hstep) h₁.run_eq (inv_new stream)
        have hsubject₁ : route p₁.subject = route (editSubject b k) := congrArg route hlegal₁.1
        have hsubject₂ : route p₂.subject = route (editSubject b k') := congrArg route hlegal₂.1
        apply not_stored_again hinv h₁.stores hc₁ hstep hrun₂ ?_ h₂.stores ?_ hc₂
        · rw [hsubject₁]
          exact hmeets
        · rw [hsubject₁, hsubject₂, hsubject]
  · obtain heq | ⟨hgt, -⟩ := h₂.before h₁ hle
    · exact absurd heq.symm hne
    · exact absurd hgt (Nat.lt_asymm hlt)

end

/-- **`create` is an insert.** In every run, whatever the calls, the order of requests and answers
and the losses:

* only what the server stores for a call changes the stream, apart from removals; a `create` is
  stored over nothing or over a delete marker, an `update` over exactly its version;
* behind a `create` no other is stored before the key is deleted or its message removed;
* a call that resolves was stored, with the sequence it resolves with, and was legal there;
* where two creates of a key resolve, the key was deleted or its message removed between the two
  stores. -/
theorem create_linearizable (b : Bucket) (route : Text → Text) (direct : Bool) (stream : Stream)
    (es : List Event) (s : Clients) (hrun : run (step b route direct) (new stream) es = some s) :
    (∀ e s', s.step b route direct e = some s' →
      (∃ i c p time, s.Stores route e i p ∧ s.callOf i = some c ∧ Legal b route s.stream c p ∧
        s'.stream = s.stream.append (routed route p) time) ∨
      (∃ seq, e = .remove seq ∧ s'.stream = s.stream.remove seq) ∨ s'.stream = s.stream) ∧
    (∀ e i p k data s₁ es' s₂ e' j p' k' data',
      s.Stores route e i p → s.callOf i = some (.create k data) →
      s.step b route direct e = some s₁ → run (step b route direct) s₁ es' = some s₂ →
      Meets (step b route direct) (Undisturbed route (route p.subject)) s₁ es' →
      s₂.Stores route e' j p' → route p'.subject = route p.subject →
      s₂.callOf j ≠ some (.create k' data')) ∧
    (∀ i c seq, s.Resolves i c seq →
      ∃ es₁ s₁ e p, StoredIn b route direct stream es i seq es₁ s₁ e p ∧
      s₁.callOf i = some c ∧ Legal b route s₁.stream c p) ∧
    ∀ i j k k' data data' seq seq', s.Resolves i (.create k data) seq →
      s.Resolves j (.create k' data') seq' → i ≠ j →
      route (editSubject b k) = route (editSubject b k') →
      ∃ es₁ es₂ es₃ s₁ s₂, es = es₁ ++ (es₂ ++ es₃) ∧
        run (step b route direct) (new stream) es₁ = some s₁ ∧
        run (step b route direct) s₁ es₂ = some s₂ ∧
        s₁.stream.lastSeq = min seq seq' ∧ s₂.stream.lastSeq + 1 = max seq seq' ∧
        ¬ Meets (step b route direct) (Undisturbed route (route (editSubject b k))) s₁ es₂ := by
  have hinv : Inv b s := invariant_run (fun _ _ _ h hstep => inv_step h hstep) hrun (inv_new stream)
  refine ⟨?_, ?_, ?_, ?_⟩
  · intro e s' hstep
    rcases stream_of_step hstep with ⟨i, p, time, hstores, hstream⟩ | hremoved | hsame
    · obtain ⟨c, hc, hlegal⟩ := legal_of_stores hinv hstores
      exact Or.inl ⟨i, c, p, time, hstores, hc, hlegal, hstream⟩
    · exact Or.inr (Or.inl hremoved)
    · exact Or.inr (Or.inr hsame)
  · intro e i p k data s₁ es' s₂ e' j p' k' data' hstores hc hstep hrun' hmeets hstores' hsubject
    exact not_stored_again hinv hstores hc hstep hrun' hmeets hstores' hsubject
  · intro i c seq hresolves
    exact legal_of_resolves hrun hresolves
  · -- the smaller of the two sequences was stored first
    intro i j k k' data data' seq seq' hi hj hne hsubject
    rcases Nat.lt_or_gt_of_ne (ne_of_resolve hrun hi hj hne) with hlt | hgt
    · rw [Nat.min_eq_left hlt.le, Nat.max_eq_right hlt.le]
      exact disturbed_of_resolve hrun hi hj hne hlt hsubject
    · rw [Nat.min_eq_right hgt.le, Nat.max_eq_left hgt.le, hsubject]
      exact disturbed_of_resolve hrun hj hi hne.symm hgt hsubject.symm

/-- Two creates of the key `a`; the second is rejected, the key is deleted, and the second create
reads the delete marker, updates it and resolves. -/
def retried : List Event :=
  [.call (.create "a".toList [1]), .call (.create "a".toList [2]), .serve 0 10, .serve 0 11,
    .answer 1, .call (.delete "a".toList none), .serve 0 12, .answer 0,
    .serveGet 0 (some ⟨"$KV.b.a".toList, 2, 12, ⟨[], some .DEL⟩⟩), .answer 1,
    .serve 0 13, .answer 1]

instance (s : Clients) (i : Nat) (c : Call) (seq : Nat) : Decidable (s.Resolves i c seq) :=
  match h : s.callers[i]? with
  | some ⟨c', .settled (.ok seq')⟩ =>
      decidable_of_iff (c' = c ∧ seq' = seq) (by
        unfold Resolves
        simp [h])
  | some ⟨_, .settled (.error _)⟩ | some ⟨_, .publishing⟩ | some ⟨_, .getting⟩ | some ⟨_, .updating⟩
  | none => isFalse (by
      unfold Resolves
      simp [h])

/-- Both creates resolve: the delete lies between the two. -/
theorem create_linearizable_retried :
    ∃ s, run (step (Bucket.plain noopCodec) id false) (new (.empty 1 Nat.one_pos)) retried =
      some s ∧ s.Resolves 0 (.create "a".toList [1]) 1 ∧ s.Resolves 1 (.create "a".toList [2]) 3 ∧
      ∃ es₁ es₂ es₃ s₁ s₂, retried = es₁ ++ (es₂ ++ es₃) ∧
        run (step (Bucket.plain noopCodec) id false) (new (.empty 1 Nat.one_pos)) es₁ = some s₁ ∧
        run (step (Bucket.plain noopCodec) id false) s₁ es₂ = some s₂ ∧
        s₁.stream.lastSeq = min 1 3 ∧ s₂.stream.lastSeq + 1 = max 1 3 ∧
        ¬ Meets (step (Bucket.plain noopCodec) id false)
          (Undisturbed id (editSubject (Bucket.plain noopCodec) "a".toList)) s₁ es₂ := by
  have hends :
      (run (step (Bucket.plain noopCodec) id false) (new (.empty 1 Nat.one_pos)) retried).any
      (fun s => decide (s.Resolves 0 (.create "a".toList [1]) 1 ∧
        s.Resolves 1 (.create "a".toList [2]) 3)) = true := by
    decide +kernel
  obtain ⟨s, hrun, hs⟩ := (Option.any_eq_true _ _).1 hends
  obtain ⟨h0, h1⟩ := of_decide_eq_true hs
  exact ⟨s, hrun, h0, h1,
    (create_linearizable (Bucket.plain noopCodec) id false (.empty 1 Nat.one_pos) retried
      s hrun).2.2.2 0 1 _ _ _ _ 1 3 h0 h1 Nat.zero_ne_one rfl⟩

end Clients

end NatsClient.Kv
