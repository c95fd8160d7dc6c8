import NatsClient.Foundation.Run
import NatsClient.Wire.HeaderStore
import Mathlib.Data.List.Perm.Basic

/-!
# Publishing to a stream

Model of `JetStreamClientImpl.publish` (`jsclient.ts`) in its system: any number of calls, which may
share their headers, the network that loses requests and answers or has nobody who listens, and a
stream that refuses messages as it likes and knows the ids of its last messages. Headers are
objects: `publish` sets its options in the headers it is given, and sends them again as they are by
then when it tries again.

* `published_once`: a call is stored at most once, and what it resolves or is rejected with tells
  which;
* `resolved_with_id`: a call with an id, made again, resolves with what the first one stored;
* `left_id_drops`: what an earlier call left in the headers is sent with the next one, which is
  dropped for it.
-/

set_option autoImplicit false

namespace NatsClient.JetStream.Publish

open NatsClient.Foundation NatsClient.Wire

/-- `PubHeaders`. -/
def MsgIdHdr : String := "Nats-Msg-Id"
def ExpectedStreamHdr : String := "Nats-Expected-Stream"
def ExpectedLastSeqHdr : String := "Nats-Expected-Last-Sequence"
def ExpectedLastMsgIdHdr : String := "Nats-Expected-Last-Msg-Id"
def ExpectedLastSubjectSequenceHdr : String := "Nats-Expected-Last-Subject-Sequence"

/-- `opts.expect`; a text that is empty is as good as none. -/
structure Expect where
  lastMsgID : String
  streamName : String
  lastSequence : Option Nat
  lastSubjectSequence : Option Nat
deriving DecidableEq, Repr

/-- `JetStreamPublishOptions`, with the number of the headers object. A `retries` of 0 is as good as
none. -/
structure JetStreamPublishOptions where
  msgID : String
  expect : Expect
  headers : Option Nat
  retries : Int
deriving DecidableEq, Repr

/-- The headers that `publish` sets, in its order. -/
def JetStreamPublishOptions.sets (opts : JetStreamPublishOptions) : List (String × String) :=
  (if opts.msgID ≠ "" then [(MsgIdHdr, opts.msgID)] else []) ++
  (if opts.expect.lastMsgID ≠ "" then [(ExpectedLastMsgIdHdr, opts.expect.lastMsgID)] else []) ++
  (if opts.expect.streamName ≠ "" then [(ExpectedStreamHdr, opts.expect.streamName)] else []) ++
  (match opts.expect.lastSequence with
    | some n => [(ExpectedLastSeqHdr, toString n)]
    | none => []) ++
  match opts.expect.lastSubjectSequence with
    | some n => [(ExpectedLastSubjectSequenceHdr, toString n)]
    | none => []

/-- `mh.set(k, v)` for each of them; the first that throws ends it. -/
def setAll [Engine] (mh : MsgHdrs) : List (String × String) → MsgHdrs × Option HeaderError
  | [] => (mh, none)
  | (k, v) :: rest =>
      match mh.set k v .exact with
      | (mh, some err) => (mh, some err)
      | (mh, none) => setAll mh rest

/-- The id that a stream reads off a message. -/
def msgId (h : MsgHdrs) : String := ((h.headers.get MsgIdHdr).bind List.head?).getD ""

/-- `PubAck`. -/
structure PubAck where
  stream : String
  seq : Nat
  duplicate : Bool
deriving DecidableEq, Repr

/-- What a call is rejected with: an error of `set`, of negative `retries`, nobody who listens, an
error of the stream, an acknowledgement without a stream, or whatever else ends a request. -/
inductive Rejection where
  | header (err : HeaderError)
  | noMsg
  | noResponders
  | api (code : Nat) (description : String)
  | invalidAck
  | failed
deriving DecidableEq, Repr

/-- Rejections that tell that the message is not stored. -/
def Rejection.definite : Rejection → Bool
  | .header _ | .noMsg | .noResponders | .api .. => true
  | .invalidAck | .failed => false

/-- The state of a call: its request is under way, it waits to try again, or it is settled. -/
inductive Phase where
  | waiting
  | delaying
  | resolved (ack : PubAck)
  | rejected (reason : Rejection)
deriving DecidableEq, Repr

/-- A call of `publish`, with the number of its headers and of the attempts left. -/
structure Caller where
  subject : String
  data : Bytes
  object : Nat
  left : Nat
  phase : Phase

/-- A message that is sent. -/
structure Sent where
  subject : String
  data : Bytes
  headers : MsgHdrs

/-- A message in the stream, with the call that sent it. -/
structure Stored where
  caller : Nat
  seq : Nat
  sent : Sent

/-- An error of the stream. -/
structure ApiError where
  code : Nat
  description : String
  error : 300 ≤ code

/-- What comes back. -/
inductive Answer where
  | ack (a : PubAck)
  | refused (err : ApiError)
  | noResponders

/-- An answer that nobody listens. -/
def Answer.nobody : Answer → Bool
  | .noResponders => true
  | .ack _ | .refused _ => false

/-- A call that was told that nobody has its message. -/
def Caller.told (c : Caller) : Bool := c.phase = .delaying || c.phase = .rejected .noResponders

/-- The system. `past` is what was stored, `ids` what the stream knows of it, and `served` are the
messages that reached the stream. -/
structure Publishers where
  stream : String
  objects : List MsgHdrs
  callers : List Caller
  requests : List (Nat × Sent)
  answers : List (Nat × Answer)
  past : List Stored
  lastSeq : Nat
  ids : List (String × Nat)
  served : List (Nat × Sent)

/-- What can happen. -/
inductive Event where
  | newHeaders (h : MsgHdrs)
  | edit (object : Nat) (e : MsgHdrs.Edit)
  | publish (subject : String) (data : Bytes) (opts : JetStreamPublishOptions)
  | serve (n : Nat) (refusal : Option ApiError)
  | noResponders (n : Nat)
  | lose (n : Nat)
  | answer (n : Nat)
  | loseAnswer (n : Nat)
  | fail (i : Nat)
  | retry (i : Nat)
  | expire (id : String)

namespace Publishers

/-- `nc.request(subj, data, ro)` of a call, with its headers as they are. -/
def send (i : Nat) (c : Caller) (s : Publishers) : Publishers :=
  match s.objects[c.object]? with
  | none => s
  | some h => { s with requests := s.requests ++ [(i, ⟨c.subject, c.data, h⟩)] }

/-- `publish(subj, data, opts)` with headers `object`, up to its first request. -/
def start [Engine] (subject : String) (data : Bytes) (opts : JetStreamPublishOptions) (object : Nat)
    (mh : MsgHdrs) (s : Publishers) : Publishers :=
  match setAll mh opts.sets with
  | (mh, some err) =>
      { s with
        objects := s.objects.set object mh
        callers := s.callers ++ [⟨subject, data, object, 0, .rejected (.header err)⟩] }
  | (mh, none) =>
      let retries := if opts.retries = 0 then 1 else opts.retries
      let s := { s with objects := s.objects.set object mh }
      -- a loop that does not run leaves no message to parse
      if retries < 0 then
        { s with callers := s.callers ++ [⟨subject, data, object, 0, .rejected .noMsg⟩] }
      else
        let c : Caller := ⟨subject, data, object, retries.toNat - 1, .waiting⟩
        { s with callers := s.callers ++ [c] }.send s.callers.length c

/-- The stream has a message. -/
def serve (i : Nat) (sent : Sent) (refusal : Option ApiError) (s : Publishers) : Publishers :=
  let s := { s with served := s.served ++ [(i, sent)] }
  match refusal with
  | some err => { s with answers := s.answers ++ [(i, .refused err)] }
  | none =>
      let id := msgId sent.headers
      -- an identifier of the window is acknowledged, and not stored again
      match if id = "" then none else s.ids.lookup id with
      | some seq => { s with answers := s.answers ++ [(i, .ack ⟨s.stream, seq, true⟩)] }
      | none =>
          let seq := s.lastSeq + 1
          { s with
            past := s.past ++ [⟨i, seq, sent⟩]
            lastSeq := seq
            ids := if id = "" then s.ids else s.ids ++ [(id, seq)]
            answers := s.answers ++ [(i, .ack ⟨s.stream, seq, false⟩)] }

/-- What an answer makes of a call: `parseJsResponse` and the `catch` of the loop. -/
def settle (c : Caller) : Answer → Caller
  | .ack a =>
      if a.stream = "" then { c with phase := .rejected .invalidAck }
      else { c with phase := .resolved a }
  | .refused err => { c with phase := .rejected (.api err.code err.description) }
  | .noResponders =>
      if 0 < c.left then { c with left := c.left - 1, phase := .delaying }
      else { c with phase := .rejected .noResponders }

/-- One event; `none` where it cannot happen. -/
def step [Engine] (s : Publishers) : Event → Option Publishers
  | .newHeaders h => some { s with objects := s.objects ++ [h] }
  | .edit object e =>
      match s.objects[object]? with
      | none => none
      | some h => some { s with objects := s.objects.set object (h.edit e).1 }
  | .publish subject data opts =>
      match opts.headers with
      | none =>
          some
            ({ s with objects := s.objects ++ [MsgHdrs.new] }.start subject data opts
              s.objects.length .new)
      | some object =>
          match s.objects[object]? with
          | none => none
          | some mh => some (s.start subject data opts object mh)
  | .serve n refusal =>
      match s.requests[n]? with
      | none => none
      | some (i, sent) => some ({ s with requests := s.requests.eraseIdx n }.serve i sent refusal)
  | .noResponders n =>
      match s.requests[n]? with
      | none => none
      | some (i, _) =>
          some
            { s with
              requests := s.requests.eraseIdx n
              answers := s.answers ++ [(i, .noResponders)] }
  | .lose n => some { s with requests := s.requests.eraseIdx n }
  | .answer n =>
      match s.answers[n]? with
      | none => none
      | some (i, a) =>
          let s := { s with answers := s.answers.eraseIdx n }
          match s.callers[i]? with
          | none => none
          | some c =>
              -- who does not wait any more has no use for it
              if c.phase = .waiting then some { s with callers := s.callers.set i (settle c a) }
              else some s
  | .loseAnswer n => some { s with answers := s.answers.eraseIdx n }
  | .fail i =>
      match s.callers[i]? with
      | none => none
      | some c =>
          if c.phase = .waiting then
            some { s with callers := s.callers.set i { c with phase := .rejected .failed } }
          else none
  | .retry i =>
      match s.callers[i]? with
      | none => none
      | some c =>
          if c.phase = .delaying then
            some ({ s with callers := s.callers.set i { c with phase := .waiting } }.send i c)
          else none
  | .expire id => some { s with ids := s.ids.filter fun x => x.1 ≠ id }

/-- A stream without messages, and nobody who publishes. -/
def init (stream : String) : Publishers := ⟨stream, [], [], [], [], [], 0, [], []⟩

/-! ## What one event does -/

section

variable {s s' : Publishers} {e : Event} {i j : Nat} {c : Caller} {x : Nat × Sent}

/-- **What the stream does**: it refuses the message, knows its id, or stores it. -/
inductive Serve (i : Nat) (sent : Sent) (s : Publishers) : Publishers → Prop where
  | refused (err : ApiError) :
      Serve i sent s
        { s with served := s.served ++ [(i, sent)], answers := s.answers ++ [(i, .refused err)] }
  | known (seq : Nat) (hid : msgId sent.headers ≠ "")
      (h : s.ids.lookup (msgId sent.headers) = some seq) :
      Serve i sent s
        { s with
          served := s.served ++ [(i, sent)]
          answers := s.answers ++ [(i, .ack ⟨s.stream, seq, true⟩)] }
  | stored (h : msgId sent.headers ≠ "" → s.ids.lookup (msgId sent.headers) = none) :
      Serve i sent s
        { s with
          served := s.served ++ [(i, sent)]
          past := s.past ++ [⟨i, s.lastSeq + 1, sent⟩]
          lastSeq := s.lastSeq + 1
          ids :=
            if msgId sent.headers = "" then s.ids
            else s.ids ++ [(msgId sent.headers, s.lastSeq + 1)]
          answers := s.answers ++ [(i, .ack ⟨s.stream, s.lastSeq + 1, false⟩)] }

theorem serve_cases (i : Nat) (sent : Sent) (refusal : Option ApiError) :
    Serve i sent s (s.serve i sent refusal) := by
  unfold serve
  cases refusal with
  | some err => exact .refused err
  | none =>
      simp only
      cases hlookup :
        (if msgId sent.headers = "" then none else s.ids.lookup (msgId sent.headers)) with
      | some seq =>
          obtain ⟨hid, hseq⟩ := Option.ite_none_left_eq_some.1 hlookup
          exact .known seq hid hseq
      | none => exact .stored fun hid => by rwa [if_neg hid] at hlookup

variable [Engine]

/-- **The first part of a call**: it is rejected, or its request is sent. -/
inductive Start (subject : String) (data : Bytes) (opts : JetStreamPublishOptions) (object : Nat)
    (mh : MsgHdrs) (s : Publishers) : Publishers → Prop where
  | refused (reason : Rejection) (h : reason = .noMsg ∨ ∃ err, reason = .header err) :
      Start subject data opts object mh s
        { s with
          objects := s.objects.set object (setAll mh opts.sets).1
          callers := s.callers ++ [⟨subject, data, object, 0, .rejected reason⟩] }
  | sent (left : Nat) (hok : (setAll mh opts.sets).2 = none) :
      Start subject data opts object mh s
        { s with
          objects := s.objects.set object (setAll mh opts.sets).1
          callers := s.callers ++ [⟨subject, data, object, left, .waiting⟩]
          requests := s.requests ++ [(s.callers.length, ⟨subject, data, (setAll mh opts.sets).1⟩)] }

theorem start_cases {subject : String} {data : Bytes} {opts : JetStreamPublishOptions}
    {object : Nat} {mh : MsgHdrs} (hobject : object < s.objects.length) :
    Start subject data opts object mh s (s.start subject data opts object mh) := by
  have hrefused := @Start.refused _ subject data opts object mh s
  have hsent := @Start.sent _ subject data opts object mh s
  rw [start]
  generalize setAll mh opts.sets = r at hrefused hsent ⊢
  obtain ⟨mh', err⟩ := r
  cases err with
  | some err => exact hrefused (.header err) (.inr ⟨err, rfl⟩)
  | none =>
      simp only
      by_cases hneg : (if opts.retries = 0 then 1 else opts.retries) < 0
      · rw [if_pos hneg]
        exact hrefused .noMsg (.inl rfl)
      · have hset : (s.objects.set object mh')[object]? = some mh' := by
          rw [List.getElem?_set, if_pos rfl, if_pos hobject]
        rw [if_neg hneg]
        simp only [send, hset]
        exact hsent _ rfl

/-- **What one event does.** -/
inductive Step (s : Publishers) : Event → Publishers → Prop where
  | newHeaders (h : MsgHdrs) : Step s (.newHeaders h) { s with objects := s.objects ++ [h] }
  | edit (object : Nat) (e : MsgHdrs.Edit) (h : MsgHdrs) (hobject : s.objects[object]? = some h) :
      Step s (.edit object e) { s with objects := s.objects.set object (h.edit e).1 }
  | publishNew (subject : String) (data : Bytes) (opts : JetStreamPublishOptions) (s' : Publishers)
      (hnone : opts.headers = none)
      (h : Start subject data opts s.objects.length .new
        { s with objects := s.objects ++ [.new] } s') :
      Step s (.publish subject data opts) s'
  | publish (subject : String) (data : Bytes) (opts : JetStreamPublishOptions) (object : Nat)
      (mh : MsgHdrs) (s' : Publishers) (hsome : opts.headers = some object)
      (hobject : s.objects[object]? = some mh) (h : Start subject data opts object mh s s') :
      Step s (.publish subject data opts) s'
  | serve (n i : Nat) (sent : Sent) (refusal : Option ApiError) (s' : Publishers)
      (hn : s.requests[n]? = some (i, sent))
      (h : Serve i sent { s with requests := s.requests.eraseIdx n } s') :
      Step s (.serve n refusal) s'
  | noResponders (n i : Nat) (sent : Sent) (hn : s.requests[n]? = some (i, sent)) :
      Step s (.noResponders n)
        { s with requests := s.requests.eraseIdx n, answers := s.answers ++ [(i, .noResponders)] }
  | lose (n : Nat) : Step s (.lose n) { s with requests := s.requests.eraseIdx n }
  | answer (n i : Nat) (a : Answer) (c : Caller) (hn : s.answers[n]? = some (i, a))
      (hi : s.callers[i]? = some c) (hwait : c.phase = .waiting) :
      Step s (.answer n)
        { s with answers := s.answers.eraseIdx n, callers := s.callers.set i (settle c a) }
  | answerLate (n : Nat) : Step s (.answer n) { s with answers := s.answers.eraseIdx n }
  | loseAnswer (n : Nat) : Step s (.loseAnswer n) { s with answers := s.answers.eraseIdx n }
  | fail (i : Nat) (c : Caller) (hi : s.callers[i]? = some c) (hwait : c.phase = .waiting) :
      Step s (.fail i) { s with callers := s.callers.set i { c with phase := .rejected .failed } }
  | retry (i : Nat) (c : Caller) (sent : List Sent) (hi : s.callers[i]? = some c)
      (hdelay : c.phase = .delaying)
      (hsent : sent = (s.objects[c.object]?).toList.map fun h => ⟨c.subject, c.data, h⟩) :
      Step s (.retry i)
        { s with
          callers := s.callers.set i { c with phase := .waiting }
          requests := s.requests ++ sent.map fun x => (i, x) }
  | expire (id : String) : Step s (.expire id) { s with ids := s.ids.filter fun x => x.1 ≠ id }

theorem step_of_eq (h : s.step e = some s') : Step s e s' := by
  cases e with
  | newHeaders hs =>
      cases h
      exact .newHeaders hs
  | edit object e =>
      simp only [step] at h
      cases hobject : s.objects[object]? with
      | none => simp only [hobject, reduceCtorEq] at h
      | some mh =>
          simp only [hobject, Option.some.injEq] at h
          exact h ▸ .edit object e mh hobject
  | publish subject data opts =>
      simp only [step] at h
      cases hheaders : opts.headers with
      | none =>
          simp only [hheaders, Option.some.injEq] at h
          -- without headers, the call makes its own
          refine .publishNew subject data opts s' hheaders (h ▸ start_cases ?_)
          rw [List.length_append]
          exact Nat.lt_succ_self _
      | some object =>
          simp only [hheaders] at h
          cases hobject : s.objects[object]? with
          | none => simp only [hobject, reduceCtorEq] at h
          | some mh =>
              simp only [hobject, Option.some.injEq] at h
              refine .publish subject data opts object mh s' hheaders hobject (h ▸ start_cases ?_)
              exact (List.getElem?_eq_some_iff.1 hobject).1
  | serve n refusal =>
      simp only [step] at h
      cases hn : s.requests[n]? with
      | none => simp only [hn, reduceCtorEq] at h
      | some r =>
          obtain ⟨i, sent⟩ := r
          simp only [hn, Option.some.injEq] at h
          exact .serve n i sent refusal s' hn (h ▸ serve_cases i sent refusal)
  | noResponders n =>
      simp only [step] at h
      cases hn : s.requests[n]? with
      | none => simp only [hn, reduceCtorEq] at h
      | some r =>
          obtain ⟨i, sent⟩ := r
          simp only [hn, Option.some.injEq] at h
          exact h ▸ .noResponders n i sent hn
  | lose n =>
      cases h
      exact .lose n
  | answer n =>
      simp only [step] at h
      cases hn : s.answers[n]? with
      | none => simp only [hn, reduceCtorEq] at h
      | some r =>
          obtain ⟨i, a⟩ := r
          simp only [hn] at h
          cases hi : s.callers[i]? with
          | none => simp only [hi, reduceCtorEq] at h
          | some c =>
              simp only [hi] at h
              -- an answer behind the end of the call is dropped
              by_cases hwait : c.phase = .waiting
              · rw [if_pos hwait] at h
                exact Option.some.inj h ▸ .answer n i a c hn hi hwait
              · rw [if_neg hwait] at h
                exact Option.some.inj h ▸ .answerLate n
  | loseAnswer n =>
      cases h
      exact .loseAnswer n
  | fail i =>
      simp only [step] at h
      cases hi : s.callers[i]? with
      | none => simp only [hi, reduceCtorEq] at h
      | some c =>
          simp only [hi] at h
          obtain ⟨hwait, heq⟩ := Option.ite_none_right_eq_some.1 h
          exact Option.some.inj heq ▸ .fail i c hi hwait
  | retry i =>
      simp only [step] at h
      cases hi : s.callers[i]? with
      | none => simp only [hi, reduceCtorEq] at h
      | some c =>
          simp only [hi] at h
          obtain ⟨hdelay, heq⟩ := Option.ite_none_right_eq_some.1 h
          -- a retry sends the headers as they are now
          have hstep := Step.retry i c _ hi hdelay rfl
          rw [send] at heq
          cases hobject : s.objects[c.object]? with
          | none =>
              simp only [hobject] at heq hstep
              rw [Option.toList_none, List.map_nil, List.map_nil, List.append_nil] at hstep
              exact Option.some.inj heq ▸ hstep
          | some mh =>
              simp only [hobject] at heq hstep
              exact Option.some.inj heq ▸ hstep
  | expire id =>
      cases h
      exact .expire id

end

/-! ## One message for a call -/

/-- Call `i` was told so. -/
def told (cs : List Caller) (i : Nat) : Nat := if (cs[i]?).any Caller.told then 1 else 0

/-- What may still become of call `i`, or became of it: a request on its way, the answer that nobody
has it, a call that was told so, or a message that reached the stream. -/
def chances (s : Publishers) (i : Nat) : Nat :=
  s.requests.countP (·.1 = i) + s.answers.countP (fun x => x.1 = i && x.2.nobody) + told
    s.callers i + s.served.countP (·.1 = i)

section

variable {s s' : Publishers} {e : Event} {i j : Nat}

theorem countP_eraseIdx {α : Type} {l : List α} {n : Nat} {x : α} (p : α → Bool)
    (h : l[n]? = some x) : l.countP p = (l.eraseIdx n).countP p + if p x then 1 else 0 := by
  obtain ⟨hn, heq⟩ := List.getElem?_eq_some_iff.1 h
  have hperm := List.Perm.countP_eq p (List.getElem_cons_eraseIdx_perm hn)
  rw [← hperm, List.countP_cons, heq]

theorem countP_eraseIdx_le {α : Type} (l : List α) (n : Nat) (p : α → Bool) :
    (l.eraseIdx n).countP p ≤ l.countP p :=
  (List.eraseIdx_sublist l n).countP_le

theorem told_set {cs : List Caller} {c : Caller} (hi : cs[i]? = some c) (c' : Caller) (j : Nat) :
    told (cs.set i c') j = if j = i then (if c'.told then 1 else 0) else told cs j := by
  rw [told, List.getElem?_set]
  by_cases hj : i = j
  · rw [if_pos hj, if_pos (List.getElem?_eq_some_iff.1 hi).1, if_pos hj.symm]
    rfl
  · rw [if_neg hj, ← told, if_neg fun h => hj h.symm]

theorem told_append (cs : List Caller) (c : Caller) (j : Nat) :
    told (cs ++ [c]) j = told cs j + if j = cs.length then (if c.told then 1 else 0) else 0 := by
  rw [told, told, List.getElem?_append]
  by_cases hj : j < cs.length
  · rw [if_pos hj, if_neg (Nat.ne_of_lt hj), Nat.add_zero]
  · rw [if_neg hj, List.getElem?_eq_none (Nat.le_of_not_lt hj)]
    by_cases hlast : j = cs.length
    · rw [if_pos hlast, hlast, Nat.sub_self]
      exact (Nat.zero_add _).symm
    · have hsub : 0 < j - cs.length := by omega
      rw [if_neg hlast, List.getElem?_eq_none hsub, Nat.add_zero]

variable [Engine]

theorem chances_start {subject : String} {data : Bytes} {opts : JetStreamPublishOptions}
    {object : Nat} {mh : MsgHdrs} (h : Start subject data opts object mh s s') (i : Nat) :
    s'.callers.length = s.callers.length + 1 ∧
      s'.chances i ≤ s.chances i + if i = s.callers.length then 1 else 0 := by
  cases h with
  | refused reason hreason =>
      refine ⟨List.length_append, ?_⟩
      have htold : Caller.told ⟨subject, data, object, 0, .rejected reason⟩ = false := by
        rcases hreason with rfl | ⟨err, rfl⟩ <;> rfl
      simp only [chances, told_append, htold, Bool.false_eq_true, if_false, ite_self, Nat.add_zero]
      exact Nat.le_add_right _ _
  | sent left hok =>
      refine ⟨List.length_append, ?_⟩
      have htold : Caller.told ⟨subject, data, object, left, .waiting⟩ = false := rfl
      simp only [chances, told_append, htold, Bool.false_eq_true, if_false, ite_self, Nat.add_zero,
        List.countP_append, List.countP_singleton, decide_eq_true_eq, @eq_comm _ s.callers.length i]
      omega

/-- **One event** gives nobody a chance but the one who publishes. -/
theorem chances_step (hstep : Step s e s') (i : Nat) :
    s'.chances i ≤ s.chances i ∧ s'.callers.length = s.callers.length ∨
      s'.callers.length = s.callers.length + 1 ∧
        s'.chances i ≤ s.chances i + if i = s.callers.length then 1 else 0 := by
  cases hstep with
  | newHeaders h => exact .inl ⟨Nat.le_refl _, rfl⟩
  | edit object e h hobject => exact .inl ⟨Nat.le_refl _, rfl⟩
  | publishNew subject data opts s' hnone h => exact .inr (chances_start h i)
  | publish subject data opts object mh s' hsome hobject h => exact .inr (chances_start h i)
  | serve n j sent refusal s' hn h =>
      -- a message that is served is answered by the stream
      have hrequests := countP_eraseIdx (fun x => decide (x.1 = i)) hn
      cases h with
      | refused err =>
          refine .inl ⟨?_, rfl⟩
          simp only [chances, List.countP_append, List.countP_singleton, Answer.nobody,
            Bool.and_false, hrequests, Bool.false_eq_true, if_false]
          omega
      | known seq hid h =>
          refine .inl ⟨?_, rfl⟩
          simp only [chances, List.countP_append, List.countP_singleton, Answer.nobody,
            Bool.and_false, hrequests, Bool.false_eq_true, if_false]
          omega
      | stored h =>
          refine .inl ⟨?_, rfl⟩
          simp only [chances, List.countP_append, List.countP_singleton, Answer.nobody,
            Bool.and_false, hrequests, Bool.false_eq_true, if_false]
          omega
  | noResponders n j sent hn =>
      -- the chance goes from the message to the answer
      have hrequests := countP_eraseIdx (fun x => decide (x.1 = i)) hn
      refine .inl ⟨?_, rfl⟩
      simp only [chances, List.countP_append, List.countP_singleton, Answer.nobody,
        Bool.and_true, hrequests]
      omega
  | lose n =>
      have hrequests := countP_eraseIdx_le s.requests n fun x => decide (x.1 = i)
      refine .inl ⟨?_, rfl⟩
      simp only [chances]
      omega
  | answer n j a c hn hj hwait =>
      have hanswers := countP_eraseIdx (fun x => x.1 = i && x.2.nobody) hn
      -- only the answer that nobody responds lets the call try again
      have htold : (if (settle c a).told then 1 else 0) ≤ if a.nobody then 1 else 0 := by
        cases a with
        | ack a =>
            rw [settle]
            split <;> exact Nat.le_refl _
        | refused err => exact Nat.le_refl _
        | noResponders =>
            show (if _ then 1 else 0) ≤ 1
            split <;> decide
      refine .inl ⟨?_, List.length_set ..⟩
      simp only [chances, told_set hj, hanswers]
      by_cases hi : i = j
      · rw [if_pos hi, hi]
        simp only [decide_true, Bool.true_and]
        omega
      · rw [if_neg hi]
        omega
  | answerLate n =>
      have hanswers := countP_eraseIdx_le s.answers n fun x => x.1 = i && x.2.nobody
      refine .inl ⟨?_, rfl⟩
      simp only [chances]
      omega
  | loseAnswer n =>
      have hanswers := countP_eraseIdx_le s.answers n fun x => x.1 = i && x.2.nobody
      refine .inl ⟨?_, rfl⟩
      simp only [chances]
      omega
  | fail j c hj hwait =>
      refine .inl ⟨?_, List.length_set ..⟩
      have htold : Caller.told { c with phase := .rejected .failed } = false := rfl
      simp only [chances, told_set hj, htold, Bool.false_eq_true, if_false]
      split <;> omega
  | retry j c sent hj hdelay hsent =>
      have htold : Caller.told { c with phase := .waiting } = false := rfl
      have hold : told s.callers j = 1 := by
        rw [told, hj]
        simp [Caller.told, hdelay]
      -- the delay of the call becomes one message of it
      have hone : (sent.map fun x => (j, x)).countP (fun x => decide (x.1 = i)) ≤ if j = i
          then 1 else 0 := by
        have hlength : sent.length ≤ 1 := by
          rw [hsent, List.length_map]
          cases s.objects[c.object]? with
          | none => exact Nat.zero_le _
          | some h => exact Nat.le_refl _
        rw [List.countP_map]
        by_cases hi : j = i
        · rw [if_pos hi]
          exact List.countP_le_length.trans hlength
        · rw [if_neg hi]
          exact (List.countP_eq_zero.2 fun x _ h => hi (of_decide_eq_true h)).le
      refine .inl ⟨?_, List.length_set ..⟩
      simp only [chances, told_set hj, htold, Bool.false_eq_true, if_false, List.countP_append]
      by_cases hi : i = j
      · rw [if_pos hi, hi, hold]
        rw [if_pos hi.symm, hi] at hone
        omega
      · rw [if_neg hi]
        rw [if_neg fun h => hi h.symm] at hone
        omega
  | expire id => exact .inl ⟨Nat.le_refl _, rfl⟩

end

/-! ## What all runs keep -/

section

variable {s s' : Publishers} {e : Event} {i j : Nat}

/-- Call `i` is not stored, and nothing of it is on its way. -/
def Unstored (s : Publishers) (i : Nat) : Prop :=
  (∀ m ∈ s.past, m.caller ≠ i) ∧ ∀ x ∈ s.requests, x.1 ≠ i

/-- What an acknowledgement says is so: the message is stored at this sequence, or one with its id
was. -/
structure Acked (s : Publishers) (i : Nat) (a : PubAck) : Prop where
  new : a.duplicate = false → ∃ m ∈ s.past, m.caller = i ∧ m.seq = a.seq
  known : a.duplicate = true → s.Unstored i ∧ ∃ x ∈ s.served, x.1 = i ∧ msgId x.2.headers ≠ "" ∧
    ∃ m ∈ s.past, m.seq = a.seq ∧ msgId m.sent.headers = msgId x.2.headers

/-- An answer to call `i` is right. -/
def Right (s : Publishers) (i : Nat) : Answer → Prop
  | .ack a => s.Acked i a
  | .refused _ => s.Unstored i ∧ ∃ x ∈ s.served, x.1 = i
  | .noResponders => True

/-- What call `i` says of its message is right. -/
def Says (s : Publishers) (i : Nat) : Phase → Prop
  | .resolved a => s.Acked i a
  | .rejected r => r.definite = true → s.Unstored i
  | .waiting | .delaying => True

/-- What all runs keep. -/
structure Inv (s : Publishers) : Prop where
  one : ∀ i, s.chances i ≤ 1
  fresh : ∀ i, s.callers.length ≤ i → s.chances i = 0
  content : ∀ x, x ∈ s.requests ∨ x ∈ s.served →
    ∃ c, s.callers[x.1]? = some c ∧ c.subject = x.2.subject ∧ c.data = x.2.data
  past : (s.past.map fun m => (m.caller, m.sent)).Sublist s.served
  ids : ∀ x ∈ s.ids, x.1 ≠ "" ∧ ∃ m ∈ s.past, m.seq = x.2 ∧ msgId m.sent.headers = x.1
  answers : ∀ x ∈ s.answers, s.Right x.1 x.2
  phases : ∀ (i : Nat) (c : Caller), s.callers[i]? = some c → s.Says i c.phase

theorem get_set_cases {cs : List Caller} {c d : Caller} (h : (cs.set i c)[j]? = some d) :
    (j = i ∧ d = c) ∨ (j ≠ i ∧ cs[j]? = some d) := by
  rw [List.getElem?_set] at h
  by_cases hi : i = j
  · rw [if_pos hi] at h
    split at h
    · exact .inl ⟨hi.symm, (Option.some.inj h).symm⟩
    · cases h
  · rw [if_neg hi] at h
    exact .inr ⟨fun h => hi h.symm, h⟩

theorem get_append_cases {cs : List Caller} {c d : Caller} (h : (cs ++ [c])[j]? = some d) :
    cs[j]? = some d ∨ (j = cs.length ∧ d = c) := by
  rw [List.getElem?_append] at h
  split at h
  · exact .inl h
  · obtain ⟨hlt, heq⟩ := List.getElem?_eq_some_iff.1 h
    rw [List.length_singleton] at hlt
    exact .inr ⟨by omega, heq ▸ List.getElem_singleton _⟩

/-- A message that reached the stream is not sent again. -/
theorem Inv.of_served (h : Inv s) (hserved : ∃ x ∈ s.served, x.1 = i) :
    i < s.callers.length ∧ (∀ x ∈ s.requests, x.1 ≠ i) ∧ ∀ c, s.callers[i]? = some c →
      c.phase ≠ .delaying := by
  obtain ⟨x, hx, hi⟩ := hserved
  have hpos : 0 < s.served.countP (·.1 = i) := List.countP_pos_iff.2 ⟨x, hx, decide_eq_true hi⟩
  have hone := h.one i
  rw [chances] at hone
  refine ⟨?_, ?_, ?_⟩
  · by_contra hge
    have := h.fresh i (Nat.le_of_not_lt hge)
    rw [chances] at this
    omega
  · have hzero : s.requests.countP (·.1 = i) = 0 := by omega
    exact fun y hy hyi => List.countP_eq_zero.1 hzero y hy (decide_eq_true hyi)
  · intro c hc hdelay
    have htold : told s.callers i = 1 := by
      rw [told, hc]
      simp [Caller.told, hdelay]
    omega

/-- Who has lost a chance, and has no other, is not stored. -/
theorem Inv.unstored (h : Inv s) (hrequests : s.requests.countP (·.1 = i) = 0)
    (hserved : s.served.countP (·.1 = i) = 0) : s.Unstored i := by
  refine ⟨fun m hm hmi => ?_, fun x hx hxi => List.countP_eq_zero.1 hrequests x hx
    (decide_eq_true hxi)⟩
  have hmem : (m.caller, m.sent) ∈ s.served := h.past.subset (List.mem_map_of_mem hm)
  exact List.countP_eq_zero.1 hserved _ hmem (decide_eq_true hmi)

theorem mem_of_lookup {ids : List (String × Nat)} {id : String} {seq : Nat}
    (h : ids.lookup id = some seq) : (id, seq) ∈ ids := by
  obtain ⟨before, behind, rfl, -⟩ := List.lookup_eq_some_iff.1 h
  exact List.mem_append_right _ List.mem_cons_self

theorem inv_init (stream : String) : Inv (init stream) where
  one _ := Nat.zero_le _
  fresh _ _ := rfl
  content x hx := by rcases hx with hx | hx <;> cases hx
  past := List.Sublist.refl _
  ids x hx := by cases hx
  answers x hx := by cases hx
  phases i c hi := by cases hi

/-- **What the stream answers** is so. -/
theorem right_serve {n : Nat} {sent : Sent} (h : Inv s) (hn : s.requests[n]? = some (i, sent))
    (hserve : Serve i sent { s with requests := s.requests.eraseIdx n } s') :
    ∃ a, s'.answers = s.answers ++ [(i, a)] ∧ s'.Right i a := by
  -- the only chance of the call was this request
  have hone := h.one i
  have hrequests := countP_eraseIdx (fun x => decide (x.1 = i)) hn
  rw [decide_eq_true rfl, if_pos rfl] at hrequests
  rw [chances, hrequests] at hone
  have hgone : ∀ x ∈ s.requests.eraseIdx n, x.1 ≠ i := fun x hx hxi =>
    List.countP_eq_zero.1 (by omega : (s.requests.eraseIdx n).countP (·.1 = i) = 0) x hx
      (decide_eq_true hxi)
  have hpast : ∀ m ∈ s.past, m.caller ≠ i := fun m hm hmi => by
    have hserved : (m.caller, m.sent) ∈ s.served := h.past.subset (List.mem_map_of_mem hm)
    exact List.countP_eq_zero.1 (by omega : s.served.countP (·.1 = i) = 0) _ hserved
      (decide_eq_true hmi)
  cases hserve with
  | refused err =>
      exact ⟨_, rfl, ⟨hpast, hgone⟩, _, List.mem_append_right _ (List.mem_singleton.2 rfl), rfl⟩
  | known seq hid hlookup =>
      obtain ⟨-, m, hm, hseq, hmid⟩ := h.ids _ (mem_of_lookup hlookup)
      refine ⟨_, rfl, Acked.mk (fun hdup => ?_) fun _ => ?_⟩
      · cases hdup
      · exact ⟨⟨hpast, hgone⟩, _, List.mem_append_right _ (List.mem_singleton.2 rfl), rfl, hid,
          m, hm, hseq, hmid⟩
  | stored hnew =>
      refine ⟨_, rfl, Acked.mk (fun _ => ?_) fun hdup => ?_⟩
      · exact ⟨_, List.mem_append_right _ (List.mem_singleton.2 rfl), rfl, rfl⟩
      · cases hdup

variable [Engine]

/-- A call goes on to be the same. -/
theorem callers_step (hstep : Step s e s') {c : Caller} (hi : s.callers[i]? = some c) :
    ∃ c', s'.callers[i]? = some c' ∧ c'.subject = c.subject ∧ c'.data = c.data ∧
      c'.object = c.object := by
  have happend : ∀ d : Caller, (s.callers ++ [d])[i]? = some c := fun d => by
    rw [List.getElem?_append_left (List.getElem?_eq_some_iff.1 hi).1, hi]
  -- what an event sets of a call is its phase
  have hset : ∀ (j : Nat) (d d' : Caller), s.callers[j]? = some d → d'.subject = d.subject →
      d'.data = d.data → d'.object = d.object → ∃ c', (s.callers.set j d')[i]? = some c' ∧
        c'.subject = c.subject ∧ c'.data = c.data ∧ c'.object = c.object := by
    intro j d d' hj hsubject hdata hobject
    rw [List.getElem?_set]
    by_cases hij : j = i
    · subst hij
      rw [hi] at hj
      cases hj
      rw [if_pos rfl, if_pos (List.getElem?_eq_some_iff.1 hi).1]
      exact ⟨d', rfl, hsubject, hdata, hobject⟩
    · rw [if_neg hij]
      exact ⟨c, hi, rfl, rfl, rfl⟩
  cases hstep with
  | newHeaders h => exact ⟨c, hi, rfl, rfl, rfl⟩
  | edit object e h hobject => exact ⟨c, hi, rfl, rfl, rfl⟩
  | publishNew subject data opts s' hnone h =>
      cases h with
      | refused reason hreason => exact ⟨c, happend _, rfl, rfl, rfl⟩
      | sent left hok => exact ⟨c, happend _, rfl, rfl, rfl⟩
  | publish subject data opts object mh s' hsome hobject h =>
      cases h with
      | refused reason hreason => exact ⟨c, happend _, rfl, rfl, rfl⟩
      | sent left hok => exact ⟨c, happend _, rfl, rfl, rfl⟩
  | serve n j sent refusal s' hn h =>
      cases h with
      | refused err => exact ⟨c, hi, rfl, rfl, rfl⟩
      | known seq hid h => exact ⟨c, hi, rfl, rfl, rfl⟩
      | stored h => exact ⟨c, hi, rfl, rfl, rfl⟩
  | noResponders n j sent hn => exact ⟨c, hi, rfl, rfl, rfl⟩
  | lose n => exact ⟨c, hi, rfl, rfl, rfl⟩
  | answer n j a d hn hj hwait =>
      have hsettle : (settle d a).subject = d.subject ∧ (settle d a).data = d.data ∧
          (settle d a).object = d.object := by
        cases a with
        | ack a =>
            rw [settle]
            split <;> exact ⟨rfl, rfl, rfl⟩
        | refused err => exact ⟨rfl, rfl, rfl⟩
        | noResponders =>
            rw [settle]
            split <;> exact ⟨rfl, rfl, rfl⟩
      exact hset j d _ hj hsettle.1 hsettle.2.1 hsettle.2.2
  | answerLate n => exact ⟨c, hi, rfl, rfl, rfl⟩
  | loseAnswer n => exact ⟨c, hi, rfl, rfl, rfl⟩
  | fail j d hj hwait => exact hset j d _ hj rfl rfl rfl
  | retry j d sent hj hdelay hsent => exact hset j d _ hj rfl rfl rfl
  | expire id => exact ⟨c, hi, rfl, rfl, rfl⟩

/-- What is stored and what reached the stream is not forgotten. -/
theorem grows_step (hstep : Step s e s') : s.past ⊆ s'.past ∧ s.served ⊆ s'.served := by
  cases hstep with
  | publishNew subject data opts s' hnone h => cases h <;> exact ⟨fun _ h => h, fun _ h => h⟩
  | publish subject data opts object mh s' hsome hobject h =>
      cases h <;> exact ⟨fun _ h => h, fun _ h => h⟩
  | serve n j sent refusal s' hn h =>
      cases h with
      | refused err => exact ⟨fun _ h => h, List.subset_append_left _ _⟩
      | known seq hid h => exact ⟨fun _ h => h, List.subset_append_left _ _⟩
      | stored h => exact ⟨List.subset_append_left _ _, List.subset_append_left _ _⟩
  | _ => exact ⟨fun _ h => h, fun _ h => h⟩

/-- **A message that is not stored** will not be, unless it is sent again. -/
theorem Unstored.step (h : s.Unstored i) (hi : i < s.callers.length)
    (hdelay : ∀ c, s.callers[i]? = some c → c.phase ≠ .delaying) (hstep : Step s e s') :
    s'.Unstored i := by
  obtain ⟨hpast, hrequests⟩ := h
  have herase : ∀ n, ∀ x ∈ s.requests.eraseIdx n, x.1 ≠ i :=
    fun n x hx => hrequests x (List.mem_of_mem_eraseIdx hx)
  -- a new call is another one
  have hnew : ∀ x : Sent, ∀ y ∈ s.requests ++ [(s.callers.length, x)], y.1 ≠ i := by
    intro x y hy
    rcases List.mem_append.1 hy with hy | hy
    · exact hrequests y hy
    · rw [List.mem_singleton.1 hy]
      exact (Nat.ne_of_lt hi).symm
  cases hstep with
  | newHeaders h => exact ⟨hpast, hrequests⟩
  | edit object e h hobject => exact ⟨hpast, hrequests⟩
  | publishNew subject data opts s' hnone h =>
      cases h with
      | refused reason hreason => exact ⟨hpast, hrequests⟩
      | sent left hok => exact ⟨hpast, hnew _⟩
  | publish subject data opts object mh s' hsome hobject h =>
      cases h with
      | refused reason hreason => exact ⟨hpast, hrequests⟩
      | sent left hok => exact ⟨hpast, hnew _⟩
  | serve n j sent refusal s' hn h =>
      cases h with
      | refused err => exact ⟨hpast, herase n⟩
      | known seq hid h => exact ⟨hpast, herase n⟩
      | stored h =>
          refine ⟨fun m hm => ?_, herase n⟩
          rcases List.mem_append.1 hm with hm | hm
          · exact hpast m hm
          · rw [List.mem_singleton.1 hm]
            -- what is stored was on its way
            exact hrequests _ (List.mem_of_getElem? hn)
  | noResponders n j sent hn => exact ⟨hpast, herase n⟩
  | lose n => exact ⟨hpast, herase n⟩
  | answer n j a c hn hj hwait => exact ⟨hpast, hrequests⟩
  | answerLate n => exact ⟨hpast, hrequests⟩
  | loseAnswer n => exact ⟨hpast, hrequests⟩
  | fail j c hj hwait => exact ⟨hpast, hrequests⟩
  | retry j c sent hj hphase hsent =>
      refine ⟨hpast, fun x hx => ?_⟩
      rcases List.mem_append.1 hx with hx | hx
      · exact hrequests x hx
      · obtain ⟨y, -, rfl⟩ := List.mem_map.1 hx
        rintro rfl
        -- a retry is of a call that waits for one
        exact hdelay c hj hphase
  | expire id => exact ⟨hpast, hrequests⟩

theorem Acked.step {a : PubAck} (h : s.Acked i a) (hinv : Inv s) (hstep : Step s e s') :
    s'.Acked i a := by
  obtain ⟨hpast, hserved⟩ := grows_step hstep
  constructor
  · intro hdup
    obtain ⟨m, hm, hmi⟩ := h.new hdup
    exact ⟨m, hpast hm, hmi⟩
  · intro hdup
    obtain ⟨hunstored, x, hx, hxi, hid, m, hm, hmx⟩ := h.known hdup
    obtain ⟨hlt, -, hdelay⟩ := hinv.of_served ⟨x, hx, hxi⟩
    exact ⟨hunstored.step hlt hdelay hstep, x, hserved hx, hxi, hid, m, hpast hm, hmx⟩

/-- Every message on its way or in the stream is the one of its call. -/
def Content (s : Publishers) (x : Nat × Sent) : Prop :=
  ∃ c, s.callers[x.1]? = some c ∧ c.subject = x.2.subject ∧ c.data = x.2.data

theorem content_step (h : Inv s) (hstep : Step s e s') (x : Nat × Sent)
    (hx : x ∈ s'.requests ∨ x ∈ s'.served) : s'.Content x := by
  have hold : x ∈ s.requests ∨ x ∈ s.served → s'.Content x := by
    intro hx
    obtain ⟨c, hc, hsubject, hdata⟩ := h.content x hx
    obtain ⟨c', hc', hsubject', hdata', -⟩ := callers_step hstep hc
    exact ⟨c', hc', hsubject'.trans hsubject, hdata'.trans hdata⟩
  -- a call that starts sends its own subject and data
  have hstart : ∀ {subject data opts object mh} {s₁ : Publishers},
      Start subject data opts object mh s₁ s' →
      s₁.callers = s.callers → s₁.requests = s.requests → s₁.served = s.served → s'.Content x := by
    intro subject data opts object mh s₁ hstart hcallers hrequests hserved
    cases hstart with
    | refused reason hreason => exact hold (hrequests ▸ hserved ▸ hx)
    | sent left hok =>
        rcases hx with hx | hx
        · rcases List.mem_append.1 hx with hx | hx
          · exact hold (.inl (hrequests ▸ hx))
          · rw [List.mem_singleton.1 hx]
            exact ⟨_, List.getElem?_concat_length, rfl, rfl⟩
        · exact hold (.inr (hserved ▸ hx))
  cases hstep with
  | newHeaders h => exact hold hx
  | edit object e h hobject => exact hold hx
  | publishNew subject data opts s' hnone h => exact hstart h rfl rfl rfl
  | publish subject data opts object mh s' hsome hobject h => exact hstart h rfl rfl rfl
  | serve n j sent refusal s' hn h =>
      -- what reaches the stream was on its way
      have hserve : x ∈ s.requests.eraseIdx n ∨ x ∈ s.served ++ [(j, sent)] → s'.Content x := by
        intro hx
        rcases hx with hx | hx
        · exact hold (.inl (List.mem_of_mem_eraseIdx hx))
        · rcases List.mem_append.1 hx with hx | hx
          · exact hold (.inr hx)
          · rw [List.mem_singleton.1 hx] at hold ⊢
            exact hold (.inl (List.mem_of_getElem? hn))
      cases h <;> exact hserve hx
  | noResponders n j sent hn => exact hold (hx.imp_left List.mem_of_mem_eraseIdx)
  | lose n => exact hold (hx.imp_left List.mem_of_mem_eraseIdx)
  | answer n j a c hn hj hwait => exact hold hx
  | answerLate n => exact hold hx
  | loseAnswer n => exact hold hx
  | fail j c hj hwait => exact hold hx
  | retry j c sent hj hdelay hsent =>
      rcases hx with hx | hx
      · rcases List.mem_append.1 hx with hx | hx
        · exact hold (.inl hx)
        · obtain ⟨y, hy, rfl⟩ := List.mem_map.1 hx
          rw [hsent] at hy
          -- the headers may have been edited, the subject and the data are those of the call
          obtain ⟨mh, -, rfl⟩ := List.mem_map.1 hy
          refine ⟨{ c with phase := .waiting }, ?_, rfl, rfl⟩
          show (s.callers.set j _)[j]? = _
          rw [List.getElem?_set, if_pos rfl, if_pos (List.getElem?_eq_some_iff.1 hj).1]
      · exact hold (.inr hx)
  | expire id => exact hold hx

theorem past_step (h : Inv s) (hstep : Step s e s') :
    (s'.past.map fun m => (m.caller, m.sent)).Sublist s'.served := by
  have hpast := h.past
  cases hstep with
  | publishNew subject data opts s' hnone h => cases h <;> exact hpast
  | publish subject data opts object mh s' hsome hobject h => cases h <;> exact hpast
  | serve n j sent refusal s' hn h =>
      cases h with
      | refused err => exact hpast.trans (List.sublist_append_left _ _)
      | known seq hid h => exact hpast.trans (List.sublist_append_left _ _)
      | stored h =>
          rw [List.map_append]
          exact hpast.append (List.Sublist.refl _)
  | _ => exact hpast

/-- The stream knows its messages by their ids. -/
def Known (s : Publishers) (x : String × Nat) : Prop :=
  x.1 ≠ "" ∧ ∃ m ∈ s.past, m.seq = x.2 ∧ msgId m.sent.headers = x.1

theorem ids_step (h : Inv s) (hstep : Step s e s') (x : String × Nat) (hx : x ∈ s'.ids) :
    s'.Known x := by
  have hold : x ∈ s.ids → s'.Known x := by
    intro hx
    obtain ⟨hne, m, hm, hseq, hid⟩ := h.ids x hx
    exact ⟨hne, m, (grows_step hstep).1 hm, hseq, hid⟩
  cases hstep with
  | publishNew subject data opts s' hnone h => cases h <;> exact hold hx
  | publish subject data opts object mh s' hsome hobject h => cases h <;> exact hold hx
  | serve n j sent refusal s' hn h =>
      cases h with
      | refused err => exact hold hx
      | known seq hid h => exact hold hx
      | stored h =>
          by_cases hid : msgId sent.headers = ""
          · simp only [if_pos hid] at hx
            exact hold hx
          · simp only [if_neg hid] at hx
            rcases List.mem_append.1 hx with hx | hx
            · exact hold hx
            · rw [List.mem_singleton.1 hx]
              exact ⟨hid, _, List.mem_append_right _ (List.mem_singleton.2 rfl), rfl, rfl⟩
  | expire id => exact hold (List.mem_of_mem_filter hx)
  | _ => exact hold hx

theorem Right.step {a : Answer} (h : s.Right i a) (hinv : Inv s) (hstep : Step s e s') :
    s'.Right i a := by
  cases a with
  | ack a => exact Acked.step h hinv hstep
  | refused err =>
      obtain ⟨hunstored, hserved⟩ := h
      obtain ⟨hlt, -, hdelay⟩ := hinv.of_served hserved
      obtain ⟨x, hx, hxi⟩ := hserved
      exact ⟨hunstored.step hlt hdelay hstep, x, (grows_step hstep).2 hx, hxi⟩
  | noResponders => trivial

theorem right_step (h : Inv s) (hstep : Step s e s') (x : Nat × Answer) (hx : x ∈ s'.answers) :
    s'.Right x.1 x.2 := by
  have hold : x ∈ s.answers → s'.Right x.1 x.2 := fun hx => (h.answers x hx).step h hstep
  cases hstep with
  | publishNew subject data opts s' hnone h => cases h <;> exact hold hx
  | publish subject data opts object mh s' hsome hobject h => cases h <;> exact hold hx
  | serve n j sent refusal s' hn hserve =>
      obtain ⟨a, heq, hright⟩ := right_serve h hn hserve
      rw [heq] at hx
      rcases List.mem_append.1 hx with hx | hx
      · exact hold hx
      · rw [List.mem_singleton.1 hx]
        exact hright
  | noResponders n j sent hn =>
      rcases List.mem_append.1 hx with hx | hx
      · exact hold hx
      · rw [List.mem_singleton.1 hx]
        trivial
  | answer n j a c hn hj hwait => exact hold (List.mem_of_mem_eraseIdx hx)
  | answerLate n => exact hold (List.mem_of_mem_eraseIdx hx)
  | loseAnswer n => exact hold (List.mem_of_mem_eraseIdx hx)
  | _ => exact hold hx

theorem says_old (h : Inv s) (hstep : Step s e s') {c : Caller} (hi : s.callers[i]? = some c) :
    s'.Says i c.phase := by
  have htrue := h.phases i c hi
  generalize hphase : c.phase = phase at htrue ⊢
  cases phase with
  | waiting => trivial
  | delaying => trivial
  | resolved a => exact Acked.step htrue h hstep
  | rejected r =>
      refine fun hdefinite => (htrue hdefinite).step (List.getElem?_eq_some_iff.1 hi).1
        (fun d hd hdelay => ?_) hstep
      rw [hi] at hd
      cases hd
      rw [hphase] at hdelay
      cases hdelay

theorem says_start {subject : String} {data : Bytes} {opts : JetStreamPublishOptions} {object : Nat}
    {mh : MsgHdrs} {s₁ : Publishers} (h : Inv s) (hstep : Step s e s')
    (hstart : Start subject data opts object mh s₁ s') (hcallers : s₁.callers = s.callers)
    (hrequests : s₁.requests = s.requests) (hpast : s₁.past = s.past) {c : Caller}
    (hi : s'.callers[i]? = some c) : s'.Says i c.phase := by
  cases hstart with
  | refused reason hreason =>
      rcases get_append_cases hi with hold | ⟨hlength, rfl⟩
      · exact says_old h hstep (hcallers ▸ hold)
      · intro _
        have hfresh := h.fresh i (by rw [hlength, hcallers])
        rw [chances] at hfresh
        obtain ⟨hnone, hrest⟩ := h.unstored (i := i) (by omega) (by omega)
        exact ⟨hpast ▸ hnone, hrequests ▸ hrest⟩
  | sent left hok =>
      rcases get_append_cases hi with hold | ⟨-, rfl⟩
      · exact says_old h hstep (hcallers ▸ hold)
      · trivial

/-- **What a call says** of its message. -/
theorem says_step (h : Inv s) (hstep : Step s e s') (i : Nat) (c : Caller)
    (hi : s'.callers[i]? = some c) : s'.Says i c.phase := by
  have hkeep := hstep
  cases hstep with
  | publishNew subject data opts s' hnone hstart => exact says_start h hkeep hstart rfl rfl rfl hi
  | publish subject data opts object mh s' hsome hobject hstart =>
      exact says_start h hkeep hstart rfl rfl rfl hi
  | serve n j sent refusal s' hn hserve =>
      refine says_old h hkeep ?_
      cases hserve <;> exact hi
  | answer n j a d hn hj hwait =>
      rcases get_set_cases hi with ⟨rfl, rfl⟩ | ⟨-, hold⟩
      · have hright := (h.answers _ (List.mem_of_getElem? hn)).step h hkeep
        cases a with
        | ack a =>
            have hphase : (settle d (.ack a)).phase = .rejected .invalidAck ∨
                (settle d (.ack a)).phase = .resolved a := by
              rw [settle]
              split
              · exact .inl rfl
              · exact .inr rfl
            rcases hphase with hphase | hphase
            · rw [hphase]
              exact fun hdefinite => by cases hdefinite
            · rw [hphase]
              exact hright
        | refused err => exact fun _ => hright.1
        | noResponders =>
            have hphase : (settle d .noResponders).phase = .delaying ∨
                (settle d .noResponders).phase = .rejected .noResponders := by
              rw [settle]
              split
              · exact .inl rfl
              · exact .inr rfl
            rcases hphase with hphase | hphase
            · rw [hphase]
              trivial
            · -- its only chance was this answer
              rw [hphase]
              intro _
              have hone := h.one i
              have hanswers : 0 < s.answers.countP fun x => x.1 = i && x.2.nobody :=
                List.countP_pos_iff.2 ⟨_, List.mem_of_getElem? hn, by simp [Answer.nobody]⟩
              rw [chances] at hone
              exact h.unstored (by omega) (by omega)
      · exact says_old h hkeep hold
  | fail j d hj hwait =>
      rcases get_set_cases hi with ⟨rfl, rfl⟩ | ⟨-, hold⟩
      · exact fun hdefinite => by cases hdefinite
      · exact says_old h hkeep hold
  | retry j d sent hj hdelay hsent =>
      rcases get_set_cases hi with ⟨rfl, rfl⟩ | ⟨-, hold⟩
      · trivial
      · exact says_old h hkeep hold
  | _ => exact says_old h hkeep hi

theorem Inv.step (h : Inv s) (hstep : Step s e s') : Inv s' where
  one i := by
    have hone := h.one i
    rcases chances_step hstep i with ⟨hle, -⟩ | ⟨-, hle⟩
    · omega
    · split at hle
      · have := h.fresh i (by omega)
        omega
      · omega
  fresh i hi := by
    rcases chances_step hstep i with ⟨hle, hlength⟩ | ⟨hlength, hle⟩
    · have := h.fresh i (by omega)
      omega
    · have := h.fresh i (by omega)
      rw [if_neg (by omega)] at hle
      omega
  content := content_step h hstep
  past := past_step h hstep
  ids := ids_step h hstep
  answers := right_step h hstep
  phases := says_step h hstep

end

/-- **A message is stored once.** In every run, for every call of `publish`: at most one message is
stored for it, with its subject and its data. Where it resolves and is no duplicate, its message is
stored at the sequence of the acknowledgement; where it is a duplicate, it is not stored, and what
is stored at this sequence has the id that it was sent with. Where it is rejected, other than for a
request that failed or an acknowledgement without a stream, it is not stored. -/
theorem published_once [Engine] (stream : String) (es : List Event) (s : Publishers)
    (hrun : run step (init stream) es = some s) (i : Nat) (c : Caller)
    (hi : s.callers[i]? = some c) :
    (s.past.filter (·.caller = i)).length ≤ 1 ∧
      (∀ m ∈ s.past, m.caller = i → m.sent.subject = c.subject ∧ m.sent.data = c.data) ∧
      (∀ a, c.phase = .resolved a → a.duplicate = false → ∃ m ∈ s.past, m.caller = i ∧
        m.seq = a.seq) ∧
      (∀ a, c.phase = .resolved a → a.duplicate = true → (∀ m ∈ s.past, m.caller ≠ i) ∧
        ∃ x ∈ s.served, x.1 = i ∧ msgId x.2.headers ≠ "" ∧
          ∃ m ∈ s.past, m.seq = a.seq ∧ msgId m.sent.headers = msgId x.2.headers) ∧
      ∀ r, c.phase = .rejected r → r.definite = true → ∀ m ∈ s.past, m.caller ≠ i := by
  have hinv : Inv s :=
    invariant_run (fun _ _ _ h hstep => h.step (step_of_eq hstep)) hrun (inv_init stream)
  have htrue := hinv.phases i c hi
  refine ⟨?_, fun m hm hmi => ?_, fun a ha hdup => ?_, fun a ha hdup => ?_,
    fun r hr hdefinite => ?_⟩
  · have hone := hinv.one i
    rw [chances] at hone
    have hle := hinv.past.countP_le (p := fun x => decide (x.1 = i))
    rw [List.countP_map] at hle
    rw [← List.countP_eq_length_filter]
    exact (show _ ≤ _ from hle).trans (by omega)
  · obtain ⟨d, hd, hsubject, hdata⟩ :=
      hinv.content _ (.inr (hinv.past.subset (List.mem_map_of_mem hm)))
    rw [hmi, hi] at hd
    cases hd
    exact ⟨hsubject.symm, hdata.symm⟩
  · rw [ha] at htrue
    exact htrue.new hdup
  · rw [ha] at htrue
    exact ⟨(htrue.known hdup).1.1, (htrue.known hdup).2⟩
  · rw [hr] at htrue
    exact (htrue hdefinite).1

/-! ## The ids that the stream knows -/

section

variable {s s' : Publishers} {e : Event} {x : String}

/-- The messages that are stored with an id. -/
def withId (s : Publishers) (x : String) : Nat := s.past.countP fun m => msgId m.sent.headers = x

/-- The stream knows an id that it has a message with, and has no other. -/
def Unique (x : String) (s : Publishers) : Prop :=
  s.withId x ≤ 1 ∧ (s.withId x = 1 → x ∈ s.ids.map Prod.fst)

/-- A stored message with the id is the only one. -/
theorem Unique.only {m : Stored} (h : Unique x s) (hm : m ∈ s.past)
    (hmx : msgId m.sent.headers = x) :
    s.past.filter (fun m => msgId m.sent.headers = x) = [m] := by
  have hmem : m ∈ s.past.filter fun m => msgId m.sent.headers = x :=
    List.mem_filter.2 ⟨hm, decide_eq_true hmx⟩
  have hle : (s.past.filter fun m => msgId m.sent.headers = x).length ≤ 1 := by
    rw [← List.countP_eq_length_filter]
    exact h.1
  have hone : (s.past.filter fun m => msgId m.sent.headers = x).length = 1 :=
    Nat.le_antisymm hle (List.length_pos_of_mem hmem)
  obtain ⟨m', hm'⟩ := List.length_eq_one_iff.1 hone
  rw [hm'] at hmem ⊢
  rw [List.mem_singleton.1 hmem]

variable [Engine]

theorem Unique.step (h : Unique x s) (hid : x ≠ "") (hkeep : e ≠ .expire x) (hstep : Step s e s') :
    Unique x s' := by
  cases hstep with
  | publishNew subject data opts s' hnone h' => cases h' <;> exact h
  | publish subject data opts object mh s' hsome hobject h' => cases h' <;> exact h
  | serve n j sent refusal s' hn hserve =>
      cases hserve with
      | refused err => exact h
      | known seq hid h' => exact h
      | stored hnew =>
          simp only [Unique, withId, List.countP_append, List.countP_singleton,
            decide_eq_true_eq] at h ⊢
          by_cases hx : msgId sent.headers = x
          · -- the stream would have known the id
            have hnone : ¬ s.past.countP (fun m => msgId m.sent.headers = x) = 1 := by
              intro hone
              obtain ⟨y, hy, hyx⟩ := List.mem_map.1 (h.2 hone)
              have hlookup := List.lookup_eq_none_iff.1 (hnew (hx ▸ hid)) y hy
              rw [hyx, hx] at hlookup
              exact absurd hlookup (by simp)
            rw [if_pos hx, if_neg (hx ▸ hid), hx]
            refine ⟨by omega, fun _ => ?_⟩
            rw [List.map_append]
            exact List.mem_append_right _ (List.mem_singleton.2 rfl)
          · rw [if_neg hx]
            refine ⟨h.1, fun hone => ?_⟩
            split
            · exact h.2 hone
            · rw [List.map_append]
              exact List.mem_append_left _ (h.2 hone)
  | expire id =>
      refine ⟨h.1, fun hone => ?_⟩
      obtain ⟨y, hy, hyx⟩ := List.mem_map.1 (h.2 hone)
      refine List.mem_map.2 ⟨y, List.mem_filter.2 ⟨hy, decide_eq_true ?_⟩, hyx⟩
      rw [hyx]
      exact fun heq => hkeep (heq ▸ rfl)
  | _ => exact h

end

/-! ## The id of a call -/

section

variable [Engine]

theorem msgId_set {k : String} (hk : k ≠ MsgIdHdr) (mh : MsgHdrs) (v : String) :
    msgId (mh.set k v .exact).1 = msgId mh := by
  have hdelete :
      ({ mh with headers := mh.headers.deleteAll (mh.headers.keys.filter (· = k)) } :
        MsgHdrs).headers.get
      MsgIdHdr = mh.headers.get MsgIdHdr := by
    show (mh.headers.deleteAll _).get MsgIdHdr = _
    rw [OrderedMap.get_deleteAll, if_neg]
    intro hmem
    exact hk (of_decide_eq_true (List.mem_filter.1 hmem).2).symm
  have hset : mh.set k v .exact =
      MsgHdrs.append { mh with headers := mh.headers.deleteAll (mh.headers.keys.filter (· = k)) }
      k v .exact := rfl
  rw [hset]
  generalize
    ({ mh with headers := mh.headers.deleteAll (mh.headers.keys.filter (· = k)) } : MsgHdrs) = mh'
    at hdelete ⊢
  rcases mh'.append_cases k v .exact with ⟨err, heq⟩ | ⟨ck, keys, value, -, hkeys, -, k', hk', heq⟩
  · rw [heq, msgId, msgId, hdelete]
  · have hown : k' = k := by
      rw [if_neg (by decide)] at hkeys hk'
      cases hkeys
      rw [hk']
      cases hhead : (mh'.headers.keys.filter (· = k)).head? with
      | none => rfl
      | some k₀ => exact of_decide_eq_true (List.mem_filter.1 (List.mem_of_head? hhead)).2
    rw [heq, hown]
    show (((mh'.headers.set k _).get MsgIdHdr).bind _).getD _ = _
    rw [OrderedMap.get_set, if_neg hk.symm, hdelete, msgId]

/-- Options without an id leave the id that is there. -/
theorem msgId_setAll {opts : JetStreamPublishOptions} (hnone : opts.msgID = "") (mh : MsgHdrs) :
    msgId (setAll mh opts.sets).1 = msgId mh := by
  have hall : ∀ kvs : List (String × String), (∀ kv ∈ kvs, kv.1 ≠ MsgIdHdr) →
      ∀ mh, msgId (setAll mh kvs).1 = msgId mh := by
    intro kvs
    induction kvs with
    | nil => exact fun _ _ => rfl
    | cons kv kvs ih =>
        intro hkvs mh
        have hfirst := msgId_set (hkvs kv List.mem_cons_self) mh kv.2
        unfold setAll
        cases hset : mh.set kv.1 kv.2 .exact with
        | mk mh' err =>
            rw [hset] at hfirst
            cases err with
            | some err => exact hfirst
            | none =>
                exact (ih (fun kv' hkv' => hkvs kv' (List.mem_cons_of_mem _ hkv')) mh').trans hfirst
  refine hall _ (fun kv hkv => ?_) mh
  rw [JetStreamPublishOptions.sets, if_neg (not_not_intro hnone), List.nil_append] at hkv
  simp only [List.mem_append] at hkv
  rcases hkv with ((hkv | hkv) | hkv) | hkv
  · split at hkv
    · exact List.mem_singleton.1 hkv ▸ (by decide : ExpectedLastMsgIdHdr ≠ MsgIdHdr)
    · cases hkv
  · split at hkv
    · exact List.mem_singleton.1 hkv ▸ (by decide : ExpectedStreamHdr ≠ MsgIdHdr)
    · cases hkv
  · split at hkv
    · exact List.mem_singleton.1 hkv ▸ (by decide : ExpectedLastSeqHdr ≠ MsgIdHdr)
    · cases hkv
  · split at hkv
    · exact List.mem_singleton.1 hkv ▸ (by decide : ExpectedLastSubjectSequenceHdr ≠ MsgIdHdr)
    · cases hkv

/-- An id that is given is set. -/
theorem msgId_setAll_given {opts : JetStreamPublishOptions} {x : String} (hgiven : opts.msgID ≠ "")
    (hx : validHeaderValue opts.msgID = .ok x) (mh : MsgHdrs) :
    msgId (setAll mh opts.sets).1 = x := by
  have hkey : MsgHdrs.FitKey MsgIdHdr := MsgHdrs.fitKey_of_short (by decide) (by decide)
  obtain ⟨mh', hset, hget⟩ := MsgHdrs.set_exact hkey hx mh
  have hid : msgId mh' = x := by
    rw [msgId, hget]
    rfl
  -- the other options have other keys
  have hrest := @msgId_setAll _ { opts with msgID := "" } rfl mh'
  rw [JetStreamPublishOptions.sets, if_neg (not_not_intro rfl), List.nil_append] at hrest
  rw [JetStreamPublishOptions.sets, if_pos hgiven]
  simp only [List.append_assoc, List.cons_append, List.nil_append, setAll, hset] at hrest ⊢
  exact hrest.trans hid

end

/-- The event leaves the id in the headers, and with the stream. -/
def Leaves (object : Nat) (x : String) : Event → Prop
  | .edit object' _ => object' ≠ object
  | .publish _ _ opts =>
      opts.headers = some object → opts.msgID = "" ∨ validHeaderValue opts.msgID = .ok x
  | .expire y => y ≠ x
  | .newHeaders _ | .serve .. | .noResponders _ | .lose _ | .answer _ | .loseAnswer _ | .fail _
  | .retry _ => True

instance (object : Nat) (x : String) : (e : Event) → Decidable (Leaves object x e)
  | .edit _ _ => inferInstanceAs (Decidable (_ ≠ _))
  | .publish .. => inferInstanceAs (Decidable (_ → _))
  | .expire _ => inferInstanceAs (Decidable (_ ≠ _))
  | .newHeaders _ | .serve .. | .noResponders _ | .lose _ | .answer _ | .loseAnswer _ | .fail _
  | .retry _ => isTrue trivial

/-- The headers of a call have an id, and so had all that it sent. -/
structure Carrying (object i : Nat) (x : String) (s : Publishers) : Prop where
  left : ∃ h, s.objects[object]? = some h ∧ msgId h = x
  caller : ∃ c, s.callers[i]? = some c ∧ c.object = object
  requests : ∀ y ∈ s.requests, y.1 = i → msgId y.2.headers = x
  served : ∀ y ∈ s.served, y.1 = i → msgId y.2.headers = x

section

variable {s s' : Publishers} {e : Event} {object i : Nat} {x : String}

theorem left_set {objects : List MsgHdrs} {n : Nat} {mh : MsgHdrs}
    (h : ∃ h, objects[object]? = some h ∧ msgId h = x) (hmh : n = object → msgId mh = x) :
    ∃ h, (objects.set n mh)[object]? = some h ∧ msgId h = x := by
  obtain ⟨h', hget, hid⟩ := h
  rw [List.getElem?_set]
  by_cases hn : n = object
  · rw [if_pos hn, if_pos (hn ▸ (List.getElem?_eq_some_iff.1 hget).1)]
    exact ⟨mh, rfl, hmh hn⟩
  · rw [if_neg hn]
    exact ⟨h', hget, hid⟩

theorem left_append {objects : List MsgHdrs} (mh : MsgHdrs)
    (h : ∃ h, objects[object]? = some h ∧ msgId h = x) :
    ∃ h, (objects ++ [mh])[object]? = some h ∧ msgId h = x := by
  obtain ⟨h', hget, hid⟩ := h
  exact ⟨h', by rw [List.getElem?_append_left (List.getElem?_eq_some_iff.1 hget).1, hget], hid⟩

variable [Engine]

/-- A call of its own headers, or of others. -/
theorem setAll_leaves {opts : JetStreamPublishOptions} {mh : MsgHdrs} (hid : msgId mh = x)
    (hleaves : opts.msgID = "" ∨ validHeaderValue opts.msgID = .ok x) :
    msgId (setAll mh opts.sets).1 = x := by
  by_cases hnone : opts.msgID = ""
  · rw [msgId_setAll hnone, hid]
  · exact msgId_setAll_given hnone (hleaves.resolve_left hnone) mh

theorem Carrying.start {subject : String} {data : Bytes} {opts : JetStreamPublishOptions} {n : Nat}
    {mh : MsgHdrs} (h : Carrying object i x s)
    (hmh : n = object → msgId (setAll mh opts.sets).1 = x)
    (hstart : Start subject data opts n mh s s') : Carrying object i x s' := by
  obtain ⟨c, hc, hobject⟩ := h.caller
  have hlt := (List.getElem?_eq_some_iff.1 hc).1
  have hcaller : ∀ d : Caller, ∃ c, (s.callers ++ [d])[i]? = some c ∧ c.object = object := fun d =>
    ⟨c, by rw [List.getElem?_append_left hlt, hc], hobject⟩
  cases hstart with
  | refused reason hreason => exact ⟨left_set h.left hmh, hcaller _, h.requests, h.served⟩
  | sent left hok =>
      refine ⟨left_set h.left hmh, hcaller _, fun y hy hyi => ?_, h.served⟩
      rcases List.mem_append.1 hy with hy | hy
      · exact h.requests y hy hyi
      · rw [List.mem_singleton.1 hy] at hyi
        exact absurd hyi (Nat.ne_of_lt hlt).symm

/-- **One event** leaves the id. -/
theorem Carrying.step (h : Carrying object i x s) (hleaves : Leaves object x e)
    (hstep : Step s e s') : Carrying object i x s' := by
  obtain ⟨c, hc, hobject⟩ := h.caller
  have hcaller : ∃ c', s'.callers[i]? = some c' ∧ c'.object = object := by
    obtain ⟨c', hc', -, -, heq⟩ := callers_step hstep hc
    exact ⟨c', hc', heq.trans hobject⟩
  have herase : ∀ n, ∀ y ∈ s.requests.eraseIdx n, y.1 = i → msgId y.2.headers = x := fun n y hy =>
    h.requests y (List.mem_of_mem_eraseIdx hy)
  cases hstep with
  | newHeaders mh => exact ⟨left_append mh h.left, hcaller, h.requests, h.served⟩
  | edit n e mh hn =>
      exact ⟨left_set h.left fun hno => absurd hno hleaves, hcaller, h.requests, h.served⟩
  | publishNew subject data opts s' hnone hstart =>
      obtain ⟨h', hget, -⟩ := h.left
      have hgrown : Carrying object i x { s with objects := s.objects ++ [MsgHdrs.new] } :=
        ⟨left_append _ h.left, h.caller, h.requests, h.served⟩
      refine hgrown.start (fun hno => ?_) hstart
      exact absurd hno (Nat.ne_of_lt (List.getElem?_eq_some_iff.1 hget).1).symm
  | publish subject data opts n mh s' hsome hn hstart =>
      refine h.start (fun hno => ?_) hstart
      obtain ⟨h', hget, hid⟩ := h.left
      rw [hno, hget] at hn
      cases hn
      exact setAll_leaves hid (hleaves (hno ▸ hsome))
  | serve n j sent refusal s' hn hserve =>
      have hserved : ∀ y ∈ s.served ++ [(j, sent)], y.1 = i → msgId y.2.headers = x := by
        intro y hy hyi
        rcases List.mem_append.1 hy with hy | hy
        · exact h.served y hy hyi
        · rw [List.mem_singleton.1 hy] at hyi ⊢
          exact h.requests _ (List.mem_of_getElem? hn) hyi
      cases hserve <;> exact ⟨h.left, hcaller, herase n, hserved⟩
  | noResponders n j sent hn => exact ⟨h.left, hcaller, herase n, h.served⟩
  | lose n => exact ⟨h.left, hcaller, herase n, h.served⟩
  | answer n j a d hn hj hwait => exact ⟨h.left, hcaller, h.requests, h.served⟩
  | answerLate n => exact ⟨h.left, hcaller, h.requests, h.served⟩
  | loseAnswer n => exact ⟨h.left, hcaller, h.requests, h.served⟩
  | fail j d hj hwait => exact ⟨h.left, hcaller, h.requests, h.served⟩
  | retry j d sent hj hdelay hsent =>
      refine ⟨h.left, hcaller, fun y hy hyi => ?_, h.served⟩
      rcases List.mem_append.1 hy with hy | hy
      · exact h.requests y hy hyi
      · -- it is sent again with the headers as they are by now
        obtain ⟨z, hz, rfl⟩ := List.mem_map.1 hy
        obtain rfl : j = i := hyi
        rw [hc] at hj
        cases hj
        obtain ⟨h', hget, hid⟩ := h.left
        rw [hsent, hobject, hget] at hz
        obtain ⟨mh, hmh, rfl⟩ := List.mem_map.1 hz
        cases List.mem_singleton.1 hmh
        exact hid
  | expire id => exact ⟨h.left, hcaller, h.requests, h.served⟩

/-- A call sends the id that its headers have. -/
theorem Inv.carrying (s₁ : Publishers) {subject : String} {data : Bytes}
    {opts : JetStreamPublishOptions} {mh : MsgHdrs} (hinv : Inv s)
    (hcallers : s₁.callers = s.callers) (hrequests : s₁.requests = s.requests)
    (hserved : s₁.served = s.served) (hobject : object < s₁.objects.length)
    (hid : msgId (setAll mh opts.sets).1 = x) (hstart : Start subject data opts object mh s₁ s') :
    Carrying object s.callers.length x s' := by
  have hfresh := hinv.fresh s.callers.length (Nat.le_refl _)
  rw [chances] at hfresh
  have hnone : ∀ y ∈ s₁.requests, y.1 ≠ s.callers.length := fun y hy hyi =>
    List.countP_eq_zero.1 (by omega : s.requests.countP (·.1 = s.callers.length) = 0) y
      (hrequests ▸ hy) (decide_eq_true hyi)
  have hnever : ∀ y ∈ s₁.served, y.1 ≠ s.callers.length := fun y hy hyi =>
    List.countP_eq_zero.1 (by omega : s.served.countP (·.1 = s.callers.length) = 0) y
      (hserved ▸ hy) (decide_eq_true hyi)
  have hleft : ∃ h, (s₁.objects.set object (setAll mh opts.sets).1)[object]? = some h ∧
      msgId h = x :=
    ⟨_, by rw [List.getElem?_set, if_pos rfl, if_pos hobject], hid⟩
  rw [← hcallers] at hnone hnever ⊢
  cases hstart with
  | refused reason hreason =>
      exact ⟨hleft, ⟨_, List.getElem?_concat_length, rfl⟩, fun y hy hyi => absurd hyi (hnone y hy),
        fun y hy hyi => absurd hyi (hnever y hy)⟩
  | sent left hok =>
      refine ⟨hleft, ⟨_, List.getElem?_concat_length, rfl⟩, fun y hy hyi => ?_,
        fun y hy hyi => absurd hyi (hnever y hy)⟩
      rcases List.mem_append.1 hy with hy | hy
      · exact absurd hyi (hnone y hy)
      · rw [List.mem_singleton.1 hy]
        exact hid

/-- The headers of a call are those that it was given, or new ones at the end. -/
theorem Inv.carrying_publish {subject : String} {data : Bytes} {opts : JetStreamPublishOptions}
    (hinv : Inv s) (hid : ∀ mh, (∀ n, opts.headers = some n → s.objects[n]? = some mh) →
      msgId (setAll mh opts.sets).1 = x)
    (hpublish : s.step (.publish subject data opts) = some s') :
    Carrying (opts.headers.getD s.objects.length) s.callers.length x s' := by
  cases step_of_eq hpublish with
  | publishNew subject data opts s' hnone hstart =>
      have hlt : s.objects.length < (s.objects ++ [MsgHdrs.new]).length := by
        rw [List.length_append]
        exact Nat.lt_succ_self _
      rw [hnone, Option.getD_none]
      refine hinv.carrying { s with objects := s.objects ++ [.new] } rfl rfl rfl hlt
        (hid _ fun n hn => ?_) hstart
      rw [hnone] at hn
      cases hn
  | publish subject data opts n mh s' hsome hn hstart =>
      rw [hsome, Option.getD_some]
      refine hinv.carrying s rfl rfl rfl (List.getElem?_eq_some_iff.1 hn).1
        (hid _ fun n' hn' => ?_) hstart
      rw [hsome] at hn'
      cases hn'
      exact hn

end

/-- **An id makes publishing repeatable.** A call with an id sends it with each of its attempts, and
if it resolves, exactly one message in the stream has the id, the one at the sequence of the
acknowledgement. It is the message of this call exactly if the acknowledgement is of no duplicate.
So it is whatever other calls do, with the same id or without it, unless the headers are edited,
published with another id, or the id expires. -/
theorem resolved_with_id [Engine] (stream x : String) (es es' : List Event) (s s₁ s₂ : Publishers)
    (hrun : run step (init stream) es = some s) (hkeep : ∀ e ∈ es, e ≠ .expire x) (subject : String)
    (data : Bytes) (opts : JetStreamPublishOptions) (hid : x ≠ "")
    (hgiven : validHeaderValue opts.msgID = .ok x)
    (hpublish : s.step (.publish subject data opts) = some s₁)
    (hleaves : ∀ e ∈ es', Leaves (opts.headers.getD s.objects.length) x e)
    (hrest : run step s₁ es' = some s₂) :
    (∀ y ∈ s₂.requests ++ s₂.served, y.1 = s.callers.length → msgId y.2.headers = x) ∧
      ∀ c a, s₂.callers[s.callers.length]? = some c → c.phase = .resolved a →
        ∃ m, s₂.past.filter (fun m => msgId m.sent.headers = x) = [m] ∧ m.seq = a.seq ∧
          (m.caller = s.callers.length ↔ a.duplicate = false) := by
  have hinv : Inv s :=
    invariant_run (fun _ _ _ h hstep => h.step (step_of_eq hstep)) hrun (inv_init stream)
  have hinv₂ : Inv s₂ := invariant_run (fun _ _ _ h hstep => h.step (step_of_eq hstep)) hrest
    (hinv.step (step_of_eq hpublish))
  have hunique : Unique x s := invariant_run_of_forall
    (fun _ _ _ h hok hstep => h.step hid hok (step_of_eq hstep)) hrun hkeep
    ⟨Nat.zero_le _, fun h => by cases h⟩
  have hunique₁ : Unique x s₁ := hunique.step hid (fun h => by cases h) (step_of_eq hpublish)
  have hunique₂ : Unique x s₂ := by
    refine invariant_run_of_forall
      (fun _ _ _ h hok hstep => h.step hid hok (step_of_eq hstep)) hrest
      (fun e he hexpire => ?_) hunique₁
    subst hexpire
    exact hleaves _ he rfl
  have hne : opts.msgID ≠ "" := by
    intro hnone
    rw [hnone] at hgiven
    exact hid (Except.ok.inj hgiven).symm
  have hcarrying : Carrying (opts.headers.getD s.objects.length) s.callers.length x s₂ :=
    invariant_run_of_forall (fun _ _ _ h hok hstep => h.step hok (step_of_eq hstep)) hrest hleaves
      (hinv.carrying_publish (fun mh _ => msgId_setAll_given hne hgiven mh) hpublish)
  -- an acknowledgement is of a message that was stored now, or known by its id
  refine ⟨fun y hy => ?_, fun c a hc ha => ?_⟩
  · rcases List.mem_append.1 hy with hy | hy
    · exact hcarrying.requests y hy
    · exact hcarrying.served y hy
  have hacked : s₂.Acked s.callers.length a := by
    have hsays := hinv₂.phases _ c hc
    rwa [ha] at hsays
  cases hdup : a.duplicate with
  | false =>
      obtain ⟨m, hm, hmi, hseq⟩ := hacked.new hdup
      have hserved : (m.caller, m.sent) ∈ s₂.served := hinv₂.past.subset (List.mem_map_of_mem hm)
      exact ⟨m, hunique₂.only hm (hcarrying.served _ hserved hmi), hseq, iff_of_true hmi rfl⟩
  | true =>
      obtain ⟨hunstored, y, hy, hyi, -, m, hm, hseq, hmid⟩ := hacked.known hdup
      refine ⟨m, hunique₂.only hm (hmid.trans (hcarrying.served y hy hyi)), hseq,
        iff_of_false ?_ ?_⟩
      · exact hunstored.1 m hm
      · exact fun h => by cases h

/-! ## Headers that are used again -/

/-- A call that uses headers with an id that the stream knows. -/
structure Doomed (object i : Nat) (x : String) (s : Publishers) :
    Prop extends Carrying object i x s where
  known : x ∈ s.ids.map Prod.fst
  past : ∀ m ∈ s.past, m.caller ≠ i

/-- **One event** does not save it. -/
theorem Doomed.step [Engine] {s s' : Publishers} {e : Event} {object i : Nat} {x : String}
    (h : Doomed object i x s) (hx : x ≠ "") (hleaves : Leaves object x e) (hstep : Step s e s') :
    Doomed object i x s' := by
  refine ⟨h.toCarrying.step hleaves hstep, ?_, ?_⟩
  · cases hstep with
    | publishNew subject data opts s' hnone hstart => cases hstart <;> exact h.known
    | publish subject data opts n mh s' hsome hn hstart => cases hstart <;> exact h.known
    | serve n j sent refusal s' hn hserve =>
        cases hserve with
        | refused err => exact h.known
        | known seq hid hlookup => exact h.known
        | stored hnew =>
            show x ∈ (if _ then _ else _ : List (String × Nat)).map Prod.fst
            split
            · exact h.known
            · rw [List.map_append]
              exact List.mem_append_left _ h.known
    | expire id =>
        obtain ⟨y, hy, hyx⟩ := List.mem_map.1 h.known
        exact List.mem_map.2
          ⟨y, List.mem_filter.2 ⟨hy, decide_eq_true fun heq => hleaves (heq.symm.trans hyx)⟩, hyx⟩
    | _ => exact h.known
  · cases hstep with
    | publishNew subject data opts s' hnone hstart => cases hstart <;> exact h.past
    | publish subject data opts n mh s' hsome hn hstart => cases hstart <;> exact h.past
    | serve n j sent refusal s' hn hserve =>
        cases hserve with
        | refused err => exact h.past
        | known seq hid hlookup => exact h.past
        | stored hnew =>
            intro m hm
            rcases List.mem_append.1 hm with hm | hm
            · exact h.past m hm
            · -- a message of the call has the id, which the stream knows
              rw [List.mem_singleton.1 hm]
              intro hji
              have hid := h.requests _ (List.mem_of_getElem? hn) hji
              obtain ⟨y, hy, hyx⟩ := List.mem_map.1 h.known
              have hlookup := List.lookup_eq_none_iff.1 (hnew (hid ▸ hx)) y hy
              rw [hid, hyx] at hlookup
              exact absurd hlookup (by simp)
    | _ => exact h.past

/-- **Headers that are used again.** A call without an id of its own, with headers in which an
earlier one left an id that the stream still knows: it is never stored, and if it resolves it is as
a duplicate, whatever happens, unless the headers are edited, published with another id, or the id
expires. -/
theorem left_id_drops [Engine] (stream : String) (es es' : List Event) (s s₁ s₂ : Publishers)
    (hrun : run step (init stream) es = some s) (subject : String) (data : Bytes)
    (opts : JetStreamPublishOptions) (object : Nat) (h : MsgHdrs)
    (hheaders : opts.headers = some object) (hobject : s.objects[object]? = some h)
    (hnone : opts.msgID = "") (hid : msgId h ≠ "") (hknown : msgId h ∈ s.ids.map Prod.fst)
    (hpublish : s.step (.publish subject data opts) = some s₁)
    (hleaves : ∀ e ∈ es', Leaves object (msgId h) e) (hrest : run step s₁ es' = some s₂) :
    (∀ m ∈ s₂.past, m.caller ≠ s.callers.length) ∧
      ∀ c a, s₂.callers[s.callers.length]? = some c → c.phase = .resolved a →
      a.duplicate = true := by
  have hinv : Inv s :=
    invariant_run (fun _ _ _ h hstep => h.step (step_of_eq hstep)) hrun (inv_init stream)
  have hfresh := hinv.fresh s.callers.length (Nat.le_refl _)
  rw [chances] at hfresh
  obtain ⟨hpast, hrequests⟩ := hinv.unstored (i := s.callers.length) (by omega) (by omega)
  have hknown₁ : msgId h ∈ s₁.ids.map Prod.fst ∧ ∀ m ∈ s₁.past, m.caller ≠ s.callers.length := by
    cases step_of_eq hpublish with
    | publishNew subject data opts s' hnone hstart => cases hstart <;> exact ⟨hknown, hpast⟩
    | publish subject data opts n mh s' hsome hn hstart => cases hstart <;> exact ⟨hknown, hpast⟩
  have hcarrying : Carrying object s.callers.length (msgId h) s₁ := by
    have hcarried := hinv.carrying_publish (x := msgId h) (fun mh hmh => ?_) hpublish
    · rwa [hheaders, Option.getD_some] at hcarried
    · have hsame := hmh object hheaders
      rw [hobject] at hsame
      rw [msgId_setAll hnone, Option.some.inj hsame]
  have hdoomed : Doomed object s.callers.length (msgId h) s₁ := ⟨hcarrying, hknown₁.1, hknown₁.2⟩
  have hgone :=
    (invariant_run_of_forall (fun _ _ _ h hok hstep => h.step hid hok (step_of_eq hstep))
      hrest hleaves
    hdoomed).past
  refine ⟨hgone, fun c a hc ha => ?_⟩
  have hinv₂ : Inv s₂ := invariant_run (fun _ _ _ h hstep => h.step (step_of_eq hstep)) hrest
    (hinv.step (step_of_eq hpublish))
  by_contra hdup
  have htrue := hinv₂.phases _ c hc
  rw [ha] at htrue
  obtain ⟨m, hm, hmi, -⟩ := Acked.new htrue (Bool.eq_false_iff.2 hdup)
  exact hgone m hm hmi

/-- Options with headers and an id. -/
def optsOf (msgID : String) (headers : Option Nat) : JetStreamPublishOptions :=
  ⟨msgID, ⟨"", "", none, none⟩, headers, 2⟩

/-- A message that nobody had at first. -/
theorem published_once_retried :
    letI : Engine := .common
    ∃ s c, run step (init "S") [.publish "a" [1] (optsOf "x" none), .noResponders 0,
      .answer 0, .retry 0,
        .serve 0 none, .answer 0] = some s ∧ s.callers[0]? = some c ∧
      c.phase = .resolved ⟨"S", 1, false⟩ ∧ ∃ m ∈ s.past, m.caller = 0 ∧ m.seq = 1 :=
  let _ : Engine := .common
  ⟨_, _, rfl, rfl, rfl,
    (published_once "S" [.publish "a" [1] (optsOf "x" none), .noResponders 0, .answer 0,
    .retry 0, .serve 0 none, .answer 0] _ rfl 0 _ rfl).2.2.1 _ rfl rfl⟩

/-- Two calls with one id, the first of which has no answer yet. -/
theorem resolved_with_id_again :
    letI : Engine := .common
    ∃ s s₁ s₂ c, run step (init "S") [.publish "a" [1] (optsOf "x" none), .serve 0 none] = some s ∧
      s.step (.publish "a" [1] (optsOf "x" none)) = some s₁ ∧
      run step s₁ [.serve 0 none, .answer 1] = some s₂ ∧ s₂.callers[1]? = some c ∧
      c.phase = .resolved ⟨"S", 1, true⟩ ∧
      ∃ m, s₂.past.filter (fun m => msgId m.sent.headers = "x") = [m] ∧ m.seq = 1 ∧
        (m.caller = 1 ↔ true = false) :=
  let _ : Engine := .common
  ⟨_, _, _, _, rfl, rfl, rfl, rfl, rfl,
    (resolved_with_id "S" "x" [.publish "a" [1] (optsOf "x" none), .serve 0 none]
      [.serve 0 none, .answer 1] _ _ _ rfl (by simp) "a" [1] (optsOf "x" none) (by decide)
      (by decide) rfl (by decide) rfl).2 _ _ rfl rfl⟩

/-- Headers that were used for a message with an id are used for another one without. -/
theorem left_id_drops_second :
    letI : Engine := .common
    ∃ s s₁ s₂, run step (init "S") [.newHeaders .new, .publish "a" [1] (optsOf "x" (some 0)),
      .serve 0 none,
        .answer 0] = some s ∧ s.step (.publish "a" [2] (optsOf "" (some 0))) = some s₁ ∧
      run step s₁ [.serve 0 none, .answer 0] = some s₂ ∧ ∀ m ∈ s₂.past, m.caller ≠ 1 :=
  let _ : Engine := .common
  ⟨_, _, _, rfl, rfl, rfl,
    (left_id_drops "S" [.newHeaders .new, .publish "a" [1] (optsOf "x" (some 0)),
    .serve 0 none, .answer 0] [.serve 0 none, .answer 0] _ _ _ rfl "a" [2]
    (optsOf "" (some 0)) 0 _ rfl rfl rfl (by decide) (by decide) rfl (by decide) rfl).1⟩

end Publishers

end NatsClient.JetStream.Publish
