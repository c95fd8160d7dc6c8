import NatsClient.Foundation.OrderedMap
import NatsClient.Foundation.Run
import NatsClient.JetStream.JsMsg
import NatsClient.JetStream.Names

/-!
# The options of a consumer

Model of `ConsumerOptsBuilderImpl` (`types.ts`) and of the sessions in which one builder makes
several options. `getOpts` moves the filter subjects of the configuration into the list of the
builder and hands out that list itself where it has two or more. So a second `getOpts` moves them
once more, and a `filterSubject` that follows changes options that were returned
(`repeatable_iff_meets`).

Numbers are whole. A time is given as its ISO text, `none` for an invalid date.
-/

set_option autoImplicit false

namespace NatsClient.JetStream

open NatsClient.Foundation

/-- The value of a field; objects are references. -/
inductive Value where
  | undefined
  | number (n : Int)
  | text (s : String)
  | flag (b : Bool)
  | object (reference : Nat)
deriving DecidableEq, Repr

/-- `Partial<ConsumerConfig>`, with its two filter fields apart from the others. -/
structure ConsumerConfig where
  fields : OrderedMap String Value
  filterSubject : Option String
  filterSubjects : Option (List String)

/-- `ConsumerOpts`; `sharesFilters` says that `config.filter_subjects` is the array of the
builder. -/
structure ConsumerOpts where
  config : ConsumerConfig
  mack : Bool
  stream : String
  callbackFn : Option Nat
  max : Option Int
  queue : Option String
  ordered : Bool
  isBind : Bool
  sharesFilters : Bool

/-- `defaultConsumer(name, opts)`. -/
def defaultConsumer (name : String) (opts : ConsumerConfig) : ConsumerConfig :=
  let defaults :=
    ((((OrderedMap.empty.set "name" (.text name)).set "deliver_policy" (.text "all")).set
    "ack_policy" (.text "explicit")).set "ack_wait" (.number (JsMsgImpl.nanos (30 * 1000)))).set
    "replay_policy" (.text "instant")
  { opts with fields := defaults.assign opts.fields }

/-- The filter subjects of a configuration; an empty `filter_subject` is none. -/
def ConsumerConfig.filters (c : ConsumerConfig) : List String :=
  c.filterSubject.toList.filter (· ≠ "") ++ c.filterSubjects.getD []

/-- The filter subjects that the server sees, each of the two fields being exclusive of the
other. -/
def ConsumerConfig.listed (c : ConsumerConfig) : List String :=
  match c.filterSubjects with
  | some subjects => subjects
  | none => c.filterSubject.toList

theorem ConsumerConfig.listed_of_none {c : ConsumerConfig} (h : c.filterSubjects = none) :
    c.listed = c.filterSubject.toList := by
  rw [listed, h]

/-- The calls of the builder. -/
inductive BuilderCall where
  | getOpts
  | description (description : String)
  | deliverTo (subject : String)
  | durable (name : String)
  | startSequence (seq : Int)
  | startTime (time : Option String)
  | deliverAll
  | deliverLastPerSubject
  | deliverLast
  | deliverNew
  | startAtTimeDelta (time : Option String)
  | headersOnly
  | ackNone
  | ackAll
  | ackExplicit
  | ackWait (millis : Int)
  | maxDeliver (max : Int)
  | filterSubject (s : String)
  | replayInstantly
  | replayOriginal
  | sample (n : Int)
  | limit (n : Int)
  | maxWaiting (max : Int)
  | maxAckPending (max : Int)
  | idleHeartbeat (millis : Int)
  | flowControl
  | deliverGroup (name : String)
  | manualAck
  | maxMessages (max : Int)
  | callback (fn : Nat)
  | queue (n : String)
  | orderedConsumer
  | bind (stream durable : String)
  | bindStream (stream : String)
  | inactiveEphemeralThreshold (millis : Int)
  | maxPullBatch (n : Int)
  | maxPullRequestExpires (millis : Int)
  | memory
  | numReplicas (n : Int)
  | consumerName (n : String)
deriving DecidableEq, Repr

/-- `ConsumerOptsBuilderImpl`. -/
structure ConsumerOptsBuilderImpl where
  config : ConsumerConfig
  ordered : Bool
  mack : Bool
  stream : String
  callbackFn : Option Nat
  max : Option Int
  qname : Option String
  isBind : Bool
  filters : Option (List String)

namespace ConsumerOptsBuilderImpl

/-- The constructor. -/
def new (opts : ConsumerConfig) : ConsumerOptsBuilderImpl :=
  ⟨defaultConsumer "" opts, false, false, "", none, none, none, false, none⟩

/-- `filterSubject(s)`. -/
def filterSubject (b : ConsumerOptsBuilderImpl) (s : String) : ConsumerOptsBuilderImpl :=
  { b with filters := some (b.filters.getD [] ++ [s]) }

/-- `getOpts` gives the subject of the configuration to the builder, and takes it from the copy. -/
def moveSubject (b : ConsumerOptsBuilderImpl) : ConsumerOptsBuilderImpl × ConsumerConfig :=
  match b.config.filterSubject with
  | some s =>
      if s = "" then (b, b.config) else (b.filterSubject s, { b.config with filterSubject := none })
  | none => (b, b.config)

/-- It does so with the list of subjects too. -/
def moveSubjects (b : ConsumerOptsBuilderImpl) (config : ConsumerConfig) :
    ConsumerOptsBuilderImpl × ConsumerConfig :=
  match config.filterSubjects with
  | some subjects => (subjects.foldl filterSubject b, { config with filterSubjects := none })
  | none => (b, config)

/-- The rest of `getOpts`, on the copy of the configuration. -/
def options (b : ConsumerOptsBuilderImpl) (config : ConsumerConfig) : ConsumerOpts :=
  let config :=
    if b.ordered then { config with fields := config.fields.set "ack_policy" (.text "none") }
    else config
  let o : ConsumerOpts :=
    { config, mack := b.mack, stream := b.stream, callbackFn := b.callbackFn, max := b.max,
      queue := b.qname, ordered := b.ordered, isBind := false, sharesFilters := false }
  match b.filters with
  | none | some [] => o
  | some [s] => { o with config := { config with filterSubject := some s } }
  | some filters =>
      { o with config := { config with filterSubjects := some filters }, sharesFilters := true }

/-- `getOpts()`. -/
def getOpts (b : ConsumerOptsBuilderImpl) : ConsumerOptsBuilderImpl × ConsumerOpts :=
  let (b, config) := b.moveSubject
  let (b, config) := b.moveSubjects config
  (b, b.options config)

/-- A field of the configuration takes a value. -/
def assign (b : ConsumerOptsBuilderImpl) (key : String) (v : Value) : ConsumerOptsBuilderImpl :=
  { b with config := { b.config with fields := b.config.fields.set key v } }

/-- `description(description)`. -/
def description (b : ConsumerOptsBuilderImpl) (description : String) :=
  b.assign "description" (.text description)

/-- `deliverTo(subject)`. -/
def deliverTo (b : ConsumerOptsBuilderImpl) (subject : String) :=
  b.assign "deliver_subject" (.text subject)

/-- `durable(name)`. -/
def durable (b : ConsumerOptsBuilderImpl) (name : String) :
    ConsumerOptsBuilderImpl × Option String :=
  match validateDurableName name with
  | .error e => (b, some e)
  | .ok () => (b.assign "durable_name" (.text name), none)

/-- `startSequence(seq)`. -/
def startSequence (b : ConsumerOptsBuilderImpl) (seq : Int) :
    ConsumerOptsBuilderImpl × Option String :=
  if seq ≤ 0 then (b, some "sequence must be greater than 0")
  else ((b.assign "deliver_policy" (.text "by_start_sequence")).assign "opt_start_seq"
    (.number seq), none)

/-- `startTime(time)`, which sets the policy before it reads the time. -/
def startTime (b : ConsumerOptsBuilderImpl) (time : Option String) :
    ConsumerOptsBuilderImpl × Option String :=
  let b := b.assign "deliver_policy" (.text "by_start_time")
  match time with
  | none => (b, some "Invalid time value")
  | some time => (b.assign "opt_start_time" (.text time), none)

/-- `deliverAll()`. -/
def deliverAll (b : ConsumerOptsBuilderImpl) := b.assign "deliver_policy" (.text "all")

/-- `deliverLastPerSubject()`. -/
def deliverLastPerSubject (b : ConsumerOptsBuilderImpl) :=
  b.assign "deliver_policy" (.text "last_per_subject")

/-- `deliverLast()`. -/
def deliverLast (b : ConsumerOptsBuilderImpl) := b.assign "deliver_policy" (.text "last")

/-- `deliverNew()`. -/
def deliverNew (b : ConsumerOptsBuilderImpl) := b.assign "deliver_policy" (.text "new")

/-- `startAtTimeDelta(millis)`, with the time that the clock gives. -/
def startAtTimeDelta (b : ConsumerOptsBuilderImpl) (time : Option String) := b.startTime time

/-- `headersOnly()`. -/
def headersOnly (b : ConsumerOptsBuilderImpl) := b.assign "headers_only" (.flag true)

/-- `ackNone()`. -/
def ackNone (b : ConsumerOptsBuilderImpl) := b.assign "ack_policy" (.text "none")

/-- `ackAll()`. -/
def ackAll (b : ConsumerOptsBuilderImpl) := b.assign "ack_policy" (.text "all")

/-- `ackExplicit()`. -/
def ackExplicit (b : ConsumerOptsBuilderImpl) := b.assign "ack_policy" (.text "explicit")

/-- `ackWait(millis)`. -/
def ackWait (b : ConsumerOptsBuilderImpl) (millis : Int) :=
  b.assign "ack_wait" (.number (JsMsgImpl.nanos millis))

/-- `maxDeliver(max)`. -/
def maxDeliver (b : ConsumerOptsBuilderImpl) (max : Int) := b.assign "max_deliver" (.number max)

/-- `replayInstantly()`. -/
def replayInstantly (b : ConsumerOptsBuilderImpl) := b.assign "replay_policy" (.text "instant")

/-- `replayOriginal()`. -/
def replayOriginal (b : ConsumerOptsBuilderImpl) := b.assign "replay_policy" (.text "original")

/-- `sample(n)`. -/
def sample (b : ConsumerOptsBuilderImpl) (n : Int) : ConsumerOptsBuilderImpl × Option String :=
  if n < 0 ∨ 100 < n then (b, some "value must be between 0-100")
  else (b.assign "sample_freq" (.text (JsMsgImpl.numeral n ++ "%")), none)

/-- `limit(n)`. -/
def limit (b : ConsumerOptsBuilderImpl) (n : Int) := b.assign "rate_limit_bps" (.number n)

/-- `maxWaiting(max)`. -/
def maxWaiting (b : ConsumerOptsBuilderImpl) (max : Int) := b.assign "max_waiting" (.number max)

/-- `maxAckPending(max)`. -/
def maxAckPending (b : ConsumerOptsBuilderImpl) (max : Int) :=
  b.assign "max_ack_pending" (.number max)

/-- `idleHeartbeat(millis)`. -/
def idleHeartbeat (b : ConsumerOptsBuilderImpl) (millis : Int) :=
  b.assign "idle_heartbeat" (.number (JsMsgImpl.nanos millis))

/-- `flowControl()`. -/
def flowControl (b : ConsumerOptsBuilderImpl) := b.assign "flow_control" (.flag true)

/-- `queue(n)`. -/
def queue (b : ConsumerOptsBuilderImpl) (n : String) : ConsumerOptsBuilderImpl :=
  { b with qname := some n }.assign "deliver_group" (.text n)

/-- `deliverGroup(name)`. -/
def deliverGroup (b : ConsumerOptsBuilderImpl) (name : String) := b.queue name

/-- `manualAck()`. -/
def manualAck (b : ConsumerOptsBuilderImpl) : ConsumerOptsBuilderImpl := { b with mack := true }

/-- `maxMessages(max)`. -/
def maxMessages (b : ConsumerOptsBuilderImpl) (max : Int) : ConsumerOptsBuilderImpl :=
  { b with max := some max }

/-- `callback(fn)`. -/
def callback (b : ConsumerOptsBuilderImpl) (fn : Nat) : ConsumerOptsBuilderImpl :=
  { b with callbackFn := some fn }

/-- `orderedConsumer()`. -/
def orderedConsumer (b : ConsumerOptsBuilderImpl) : ConsumerOptsBuilderImpl :=
  { b with ordered := true }

/-- `bind(stream, durable)`. -/
def bind (b : ConsumerOptsBuilderImpl) (stream durable : String) : ConsumerOptsBuilderImpl :=
  { { b with stream }.assign "durable_name" (.text durable) with isBind := true }

/-- `bindStream(stream)`. -/
def bindStream (b : ConsumerOptsBuilderImpl) (stream : String) : ConsumerOptsBuilderImpl :=
  { b with stream }

/-- `inactiveEphemeralThreshold(millis)`. -/
def inactiveEphemeralThreshold (b : ConsumerOptsBuilderImpl) (millis : Int) :=
  b.assign "inactive_threshold" (.number (JsMsgImpl.nanos millis))

/-- `maxPullBatch(n)`. -/
def maxPullBatch (b : ConsumerOptsBuilderImpl) (n : Int) := b.assign "max_batch" (.number n)

/-- `maxPullRequestExpires(millis)`. -/
def maxPullRequestExpires (b : ConsumerOptsBuilderImpl) (millis : Int) :=
  b.assign "max_expires" (.number (JsMsgImpl.nanos millis))

/-- `memory()`. -/
def memory (b : ConsumerOptsBuilderImpl) := b.assign "mem_storage" (.flag true)

/-- `numReplicas(n)`. -/
def numReplicas (b : ConsumerOptsBuilderImpl) (n : Int) := b.assign "num_replicas" (.number n)

/-- `consumerName(n)`. -/
def consumerName (b : ConsumerOptsBuilderImpl) (n : String) := b.assign "name" (.text n)

/-- A call on the builder, with the error that it throws; the options of `getOpts` are left out
here. -/
def call (b : ConsumerOptsBuilderImpl) : BuilderCall → ConsumerOptsBuilderImpl × Option String
  | .getOpts => (b.getOpts.1, none)
  | .description description => (b.description description, none)
  | .deliverTo subject => (b.deliverTo subject, none)
  | .durable name => b.durable name
  | .startSequence seq => b.startSequence seq
  | .startTime time => b.startTime time
  | .deliverAll => (b.deliverAll, none)
  | .deliverLastPerSubject => (b.deliverLastPerSubject, none)
  | .deliverLast => (b.deliverLast, none)
  | .deliverNew => (b.deliverNew, none)
  | .startAtTimeDelta time => b.startAtTimeDelta time
  | .headersOnly => (b.headersOnly, none)
  | .ackNone => (b.ackNone, none)
  | .ackAll => (b.ackAll, none)
  | .ackExplicit => (b.ackExplicit, none)
  | .ackWait millis => (b.ackWait millis, none)
  | .maxDeliver max => (b.maxDeliver max, none)
  | .filterSubject s => (b.filterSubject s, none)
  | .replayInstantly => (b.replayInstantly, none)
  | .replayOriginal => (b.replayOriginal, none)
  | .sample n => b.sample n
  | .limit n => (b.limit n, none)
  | .maxWaiting max => (b.maxWaiting max, none)
  | .maxAckPending max => (b.maxAckPending max, none)
  | .idleHeartbeat millis => (b.idleHeartbeat millis, none)
  | .flowControl => (b.flowControl, none)
  | .deliverGroup name => (b.deliverGroup name, none)
  | .manualAck => (b.manualAck, none)
  | .maxMessages max => (b.maxMessages max, none)
  | .callback fn => (b.callback fn, none)
  | .queue n => (b.queue n, none)
  | .orderedConsumer => (b.orderedConsumer, none)
  | .bind stream durable => (b.bind stream durable, none)
  | .bindStream stream => (b.bindStream stream, none)
  | .inactiveEphemeralThreshold millis => (b.inactiveEphemeralThreshold millis, none)
  | .maxPullBatch n => (b.maxPullBatch n, none)
  | .maxPullRequestExpires millis => (b.maxPullRequestExpires millis, none)
  | .memory => (b.memory, none)
  | .numReplicas n => (b.numReplicas n, none)
  | .consumerName n => (b.consumerName n, none)

/-- The subjects that the next `getOpts` gives: those of the builder, then those of the
configuration. -/
def allFilters (b : ConsumerOptsBuilderImpl) : List String := b.filters.getD [] ++ b.config.filters

variable {b : ConsumerOptsBuilderImpl}

theorem filters_foldl (subjects : List String) (b : ConsumerOptsBuilderImpl) :
    (subjects.foldl filterSubject b).filters.getD [] = b.filters.getD [] ++ subjects ∧
      (subjects.foldl filterSubject b).config = b.config := by
  induction subjects generalizing b with
  | nil => exact ⟨(List.append_nil _).symm, rfl⟩
  | cons s subjects ih =>
      obtain ⟨hfilters, hconfig⟩ := ih (b.filterSubject s)
      refine ⟨hfilters.trans ?_, hconfig⟩
      rw [filterSubject, Option.getD_some, List.append_assoc, List.singleton_append]

theorem moveSubject_spec (b : ConsumerOptsBuilderImpl) :
    b.moveSubject.1 = (b.config.filterSubject.toList.filter (· ≠ "")).foldl filterSubject b ∧
      b.moveSubject.2.filterSubjects = b.config.filterSubjects := by
  rw [moveSubject]
  cases b.config.filterSubject with
  | none => exact ⟨rfl, rfl⟩
  | some s =>
      by_cases hs : s = ""
      · rw [hs]
        exact ⟨rfl, rfl⟩
      · have hkeep : [s].filter (· ≠ "") = [s] := List.filter_cons_of_pos (decide_eq_true hs)
        rw [Option.toList_some, hkeep]
        show (if s = "" then _ else _ : ConsumerOptsBuilderImpl × ConsumerConfig).1 = _ ∧
          (if s = "" then _ else _ : ConsumerOptsBuilderImpl × ConsumerConfig).2.filterSubjects = _
        rw [if_neg hs]
        exact ⟨rfl, rfl⟩

theorem moveSubjects_spec (b : ConsumerOptsBuilderImpl) (config : ConsumerConfig) :
    (b.moveSubjects config).1 = (config.filterSubjects.getD []).foldl filterSubject b ∧
      (b.moveSubjects config).2.filterSubjects = none := by
  rw [moveSubjects]
  cases hsubjects : config.filterSubjects with
  | none => exact ⟨rfl, hsubjects⟩
  | some subjects => exact ⟨rfl, rfl⟩

/-- **What `getOpts` moves.** -/
theorem getOpts_fst (b : ConsumerOptsBuilderImpl) :
    b.getOpts.1 = b.config.filters.foldl filterSubject b := by
  show (b.moveSubject.1.moveSubjects b.moveSubject.2).1 = _
  rw [(moveSubjects_spec _ _).1, (moveSubject_spec b).1, (moveSubject_spec b).2,
    ConsumerConfig.filters, List.foldl_append]

theorem filters_getOpts (b : ConsumerOptsBuilderImpl) :
    b.getOpts.1.filters.getD [] = b.allFilters ∧ b.getOpts.1.config = b.config := by
  rw [getOpts_fst]
  exact filters_foldl b.config.filters b

theorem filters_eq_some {subjects : List String} (h : b.filters.getD [] = subjects)
    (hne : subjects ≠ []) : b.filters = some subjects := by
  cases hfilters : b.filters with
  | none =>
      rw [hfilters] at h
      exact absurd h.symm hne
  | some filters =>
      rw [hfilters] at h
      exact congrArg some h

/-- A builder whose configuration has no subjects stays as it is. -/
theorem getOpts_fst_of_nil (h : b.config.filters = []) : b.getOpts.1 = b := by
  rw [getOpts_fst, h, List.foldl_nil]

theorem options_spec (b : ConsumerOptsBuilderImpl) {config : ConsumerConfig}
    (h : config.filterSubjects = none) :
    (b.filters.getD [] ≠ [] → (b.options config).config.listed = b.filters.getD []) ∧
      ((b.options config).sharesFilters = true →
        (b.options config).config.filterSubjects = b.filters ∧ b.filters.getD [] ≠ []) := by
  have hcopy :
      (if b.ordered then { config with fields := config.fields.set "ack_policy" (.text "none") }
      else config).filterSubjects = none := by
    split
    · exact h
    · exact h
  rw [options]
  rcases b.filters with _ | _ | ⟨s, _ | ⟨s', subjects⟩⟩
  · exact ⟨fun hne => absurd rfl hne, fun hshares => (by cases hshares)⟩
  · exact ⟨fun hne => absurd rfl hne, fun hshares => (by cases hshares)⟩
  · exact ⟨fun _ => ConsumerConfig.listed_of_none hcopy, fun hshares => (by cases hshares)⟩
  · exact ⟨fun _ => rfl, fun _ => ⟨rfl, List.cons_ne_nil _ _⟩⟩

/-- **What `getOpts` returns**: the subjects, in the array of the builder where they are two or
more. -/
theorem getOpts_snd (b : ConsumerOptsBuilderImpl) :
    (b.allFilters ≠ [] → b.getOpts.2.config.listed = b.allFilters) ∧
      (b.getOpts.2.sharesFilters = true →
        b.getOpts.2.config.filterSubjects = b.getOpts.1.filters ∧ b.allFilters ≠ []) := by
  rw [← (filters_getOpts b).1]
  exact options_spec b.getOpts.1 (moveSubjects_spec b.moveSubject.1 b.moveSubject.2).2

/-- The filters are as before. -/
def Keeps (b b' : ConsumerOptsBuilderImpl) : Prop :=
  b'.filters = b.filters ∧ b'.config.filters = b.config.filters

theorem keeps_assign (b : ConsumerOptsBuilderImpl) (key : String) (v : Value) :
    b.Keeps (b.assign key v) :=
  ⟨rfl, rfl⟩

end ConsumerOptsBuilderImpl

/-! ## Sessions -/

/-- What a call gives to the builder. -/
def BuilderCall.given : BuilderCall → List String
  | .filterSubject s => [s]
  | _ => []

/-- Options as they were returned, behind how many of the other calls, and the subjects given by
then. -/
structure Returned where
  opts : ConsumerOpts
  calls : Nat
  given : List String

/-- A builder with its user: the calls other than `getOpts` are counted, the subjects given and the
options returned are recorded. -/
structure BuilderSession where
  builder : ConsumerOptsBuilderImpl
  calls : Nat
  given : List String
  returned : List Returned

namespace BuilderSession

/-- A new builder. -/
def new (opts : ConsumerConfig) : BuilderSession := ⟨.new opts, 0, opts.filters, []⟩

/-- A call of the user. -/
def step (s : BuilderSession) (c : BuilderCall) : BuilderSession :=
  let s' := { s with builder := (s.builder.call c).1, given := s.given ++ c.given }
  if c = .getOpts then
    { s' with returned := s.returned ++ [⟨s.builder.getOpts.2, s.calls, s.given⟩] }
  else { s' with calls := s.calls + 1 }

/-- What options that were returned read now. -/
def now (s : BuilderSession) (o : ConsumerOpts) : ConsumerOpts :=
  if o.sharesFilters then { o with config := { o.config with filterSubjects := s.builder.filters } }
  else o

/-- Options returned with no other call in between are equal, each subject given is in them once,
and they read as they did when they were returned. -/
structure Repeatable (s : BuilderSession) : Prop where
  equal : ∀ e ∈ s.returned, ∀ e' ∈ s.returned, e.calls = e'.calls → e.opts = e'.opts
  once : ∀ e ∈ s.returned, ∀ subject ∈ e.given, e.opts.config.listed.count subject = 1
  kept : ∀ e ∈ s.returned, s.now e.opts = e.opts

/-- A `getOpts` moves no subject that the builder has, or that is there twice; a `filterSubject`
finds no options that share the array. -/
def Spares (s : BuilderSession) : BuilderCall → Prop
  | .getOpts => s.builder.allFilters.Nodup
  | .filterSubject _ => ∀ e ∈ s.returned, e.opts.sharesFilters = false
  | _ => True

/-- The subjects given are those of the builder and of its configuration, and the first `getOpts`
moved the latter. Options that share the array had what the array begins with. -/
structure Inv (s : BuilderSession) : Prop where
  given : ∀ subject, subject ∈ s.given ↔ subject ∈ s.builder.allFilters
  moved : s.returned ≠ [] → ∀ subject ∈ s.builder.config.filters,
    subject ∈ s.builder.filters.getD []
  calls : ∀ e ∈ s.returned, e.calls ≤ s.calls
  same : s.builder.config.filters = [] → ∀ e ∈ s.returned, e.calls = s.calls →
    e.opts = s.builder.getOpts.2
  shared : ∀ e ∈ s.returned, e.opts.sharesFilters = true →
    ∃ subjects, e.opts.config.filterSubjects = some subjects ∧ subjects ≠ [] ∧
      subjects <+: s.builder.filters.getD []

variable {s s' : BuilderSession} {o : ConsumerOpts}

theorem inv_new (opts : ConsumerConfig) : (new opts).Inv where
  given := fun _ => Iff.rfl
  moved := fun h => absurd rfl h
  calls := by
    intro e he
    cases he
  same := by
    intro _ e he
    cases he
  shared := by
    intro e he
    cases he

/-- **The calls that are not about filters.** -/
theorem step_cases (s : BuilderSession) (c : BuilderCall) :
    c = .getOpts ∨ (∃ subject, c = .filterSubject subject) ∨
      s.Spares c ∧
      (∃ b, s.builder.Keeps b ∧ s.step c = { s with builder := b, calls := s.calls + 1 }) := by
  have hother : c ≠ .getOpts → c.given = [] → s.Spares c → s.builder.Keeps (s.builder.call c).1 →
      s.Spares c ∧
      (∃ b, s.builder.Keeps b ∧ s.step c = { s with builder := b, calls := s.calls + 1 }) := by
    intro hopts hgiven hspares hkeeps
    refine ⟨hspares, _, hkeeps, ?_⟩
    simp only [step, if_neg hopts, hgiven, List.append_nil]
  cases c with
  | getOpts => exact .inl rfl
  | filterSubject subject => exact .inr (.inl ⟨subject, rfl⟩)
  | durable name =>
      refine .inr (.inr (hother (by rintro ⟨⟩) rfl trivial ?_))
      simp only [ConsumerOptsBuilderImpl.call, ConsumerOptsBuilderImpl.durable]
      split
      · exact ⟨rfl, rfl⟩
      · exact s.builder.keeps_assign _ _
  | startSequence seq =>
      refine .inr (.inr (hother (by rintro ⟨⟩) rfl trivial ?_))
      simp only [ConsumerOptsBuilderImpl.call, ConsumerOptsBuilderImpl.startSequence]
      split
      · exact ⟨rfl, rfl⟩
      · exact ⟨rfl, rfl⟩
  | startTime time =>
      refine .inr (.inr (hother (by rintro ⟨⟩) rfl trivial ?_))
      cases time with
      | none => exact s.builder.keeps_assign _ _
      | some time => exact ⟨rfl, rfl⟩
  | startAtTimeDelta time =>
      refine .inr (.inr (hother (by rintro ⟨⟩) rfl trivial ?_))
      cases time with
      | none => exact s.builder.keeps_assign _ _
      | some time => exact ⟨rfl, rfl⟩
  | sample n =>
      refine .inr (.inr (hother (by rintro ⟨⟩) rfl trivial ?_))
      simp only [ConsumerOptsBuilderImpl.call, ConsumerOptsBuilderImpl.sample]
      split
      · exact ⟨rfl, rfl⟩
      · exact s.builder.keeps_assign _ _
  -- the other calls cannot fail
  | _ => exact .inr (.inr (hother (by rintro ⟨⟩) rfl trivial ⟨rfl, rfl⟩))

theorem step_getOpts (s : BuilderSession) : s.step .getOpts =
    { s with
      builder := s.builder.getOpts.1
      returned := s.returned ++ [⟨s.builder.getOpts.2, s.calls, s.given⟩] } := by
  simp only [step, if_true, BuilderCall.given, List.append_nil, ConsumerOptsBuilderImpl.call]

theorem step_filterSubject (s : BuilderSession) (subject : String) :
    s.step (.filterSubject subject) = { s with
      builder := s.builder.filterSubject subject
      given := s.given ++ [subject]
      calls := s.calls + 1 } := rfl

theorem inv_getOpts (h : s.Inv) : (s.step .getOpts).Inv := by
  obtain ⟨hfilters, hconfig⟩ := s.builder.filters_getOpts
  rw [step_getOpts]
  constructor
  · intro subject
    rw [h.given]
    show _ ↔ subject ∈ s.builder.getOpts.1.filters.getD [] ++ s.builder.getOpts.1.config.filters
    rw [hfilters, hconfig, List.mem_append]
    -- the subjects of the configuration are now there twice
    exact (or_iff_left_of_imp fun hin => List.mem_append_right _ hin).symm
  · rintro - subject hin
    rw [hfilters]
    apply List.mem_append_right
    rw [← hconfig]
    exact hin
  · intro e he
    rcases List.mem_append.1 he with he | he
    · exact h.calls e he
    · rw [List.mem_singleton.1 he]
  · intro hnil e he hcalls
    have hnil' : s.builder.config.filters = [] := by
      rw [← hconfig]
      exact hnil
    show e.opts = s.builder.getOpts.1.getOpts.2
    rw [ConsumerOptsBuilderImpl.getOpts_fst_of_nil hnil']
    rcases List.mem_append.1 he with he | he
    · exact h.same hnil' e he hcalls
    · rw [List.mem_singleton.1 he]
  · intro e he hshares
    rw [hfilters]
    rcases List.mem_append.1 he with he | he
    · obtain ⟨subjects, heq, hne, hprefix⟩ := h.shared e he hshares
      exact ⟨subjects, heq, hne, hprefix.trans (List.prefix_append _ _)⟩
    · rw [List.mem_singleton.1 he] at hshares ⊢
      obtain ⟨hopts, hne⟩ := s.builder.getOpts_snd.2 hshares
      refine ⟨s.builder.allFilters, ?_, hne, List.prefix_refl _⟩
      show s.builder.getOpts.2.config.filterSubjects = _
      rw [hopts]
      exact ConsumerOptsBuilderImpl.filters_eq_some hfilters hne

theorem inv_filterSubject (h : s.Inv) (subject : String) :
    (s.step (.filterSubject subject)).Inv := by
  have hfilters : (s.builder.filterSubject subject).filters.getD [] = s.builder.filters.getD
      [] ++ [subject] := rfl
  rw [step_filterSubject]
  constructor
  · intro other
    show other ∈ s.given ++ [subject] ↔
      other ∈ (s.builder.filterSubject subject).filters.getD [] ++ s.builder.config.filters
    rw [hfilters, List.append_assoc, List.mem_append, h.given, ConsumerOptsBuilderImpl.allFilters]
    simp only [List.mem_append]
    exact or_right_comm.trans or_assoc
  · intro hne other hin
    rw [hfilters]
    exact List.mem_append_left _ (h.moved hne other hin)
  · intro e he
    exact Nat.le_succ_of_le (h.calls e he)
  · intro _ e he hcalls
    exact absurd (h.calls e he) (hcalls ▸ Nat.not_succ_le_self _)
  · intro e he hshares
    obtain ⟨subjects, heq, hne, hprefix⟩ := h.shared e he hshares
    exact ⟨subjects, heq, hne, hprefix.trans (List.prefix_append _ _)⟩

theorem inv_keeps (h : s.Inv) {b : ConsumerOptsBuilderImpl} (hkeeps : s.builder.Keeps b) :
    ({ s with builder := b, calls := s.calls + 1 } : BuilderSession).Inv := by
  obtain ⟨hfilters, hconfig⟩ := hkeeps
  constructor
  · intro subject
    rw [ConsumerOptsBuilderImpl.allFilters, hfilters, hconfig]
    exact h.given subject
  · rw [hfilters, hconfig]
    exact h.moved
  · intro e he
    exact Nat.le_succ_of_le (h.calls e he)
  · intro _ e he hcalls
    exact absurd (h.calls e he) (hcalls ▸ Nat.not_succ_le_self _)
  · rw [hfilters]
    exact h.shared

/-- **One call.** -/
theorem inv_step (h : s.Inv) (c : BuilderCall) : (s.step c).Inv := by
  rcases s.step_cases c with rfl | ⟨subject, rfl⟩ | ⟨-, b, hkeeps, heq⟩
  · exact inv_getOpts h
  · exact inv_filterSubject h subject
  · rw [heq]
    exact inv_keeps h hkeeps

theorem now_of_not_shares (h : o.sharesFilters = false) : s.now o = o := by
  rw [now, h, if_neg Bool.false_ne_true]

/-- Options that share the array read as they did where the array is the same. -/
theorem now_eq_iff (h : o.sharesFilters = true) :
    s.now o = o ↔ s.builder.filters = o.config.filterSubjects := by
  rw [now, if_pos h]
  constructor
  · intro heq
    exact congrArg (fun o => o.config.filterSubjects) heq
  · intro heq
    rw [heq]

theorem now_congr (h : s'.builder.filters = s.builder.filters) (o : ConsumerOpts) :
    s'.now o = s.now o := by
  rw [now, now, h]

/-- Behind the first `getOpts`, one that finds no subject twice finds none in the configuration. -/
theorem filters_config_eq_nil (h : s.Inv) (hne : s.returned ≠ [])
    (hnodup : s.builder.allFilters.Nodup) : s.builder.config.filters = [] := by
  apply List.eq_nil_iff_forall_not_mem.2
  intro subject hin
  exact (List.nodup_append.1 hnodup).2.2 subject (h.moved hne subject hin) subject hin rfl

/-- The subjects given are in the options once exactly where no subject is there twice. -/
theorem once_getOpts_iff (h : s.Inv) :
    (∀ subject ∈ s.given, s.builder.getOpts.2.config.listed.count subject = 1) ↔
      s.builder.allFilters.Nodup := by
  by_cases hnil : s.builder.allFilters = []
  · have hgiven : ∀ subject, subject ∉ s.given := by
      intro subject hin
      rw [h.given, hnil] at hin
      cases hin
    rw [hnil]
    exact iff_of_true (fun subject hin => absurd hin (hgiven subject)) List.nodup_nil
  · rw [s.builder.getOpts_snd.1 hnil, List.nodup_iff_count_eq_one]
    exact forall_congr' fun subject => imp_congr_left (h.given subject)

/-- What was just returned reads as it is. -/
theorem now_getOpts (s : BuilderSession) :
    (s.step .getOpts).now s.builder.getOpts.2 = s.builder.getOpts.2 := by
  cases hshares : s.builder.getOpts.2.sharesFilters with
  | false => exact now_of_not_shares hshares
  | true =>
      rw [now_eq_iff hshares, step_getOpts]
      exact (s.builder.getOpts_snd.2 hshares).1.symm

theorem repeatable_getOpts (h : s.Inv) :
    (s.step .getOpts).Repeatable ↔ s.Repeatable ∧ s.Spares .getOpts := by
  have hreturned : (s.step .getOpts).returned =
      s.returned ++ [⟨s.builder.getOpts.2, s.calls, s.given⟩] := by rw [step_getOpts]
  have hold : ∀ e ∈ s.returned, e ∈ (s.step .getOpts).returned := by
    intro e he
    rw [hreturned]
    exact List.mem_append_left _ he
  have hnew : (⟨s.builder.getOpts.2, s.calls, s.given⟩ : Returned) ∈
      (s.step .getOpts).returned := by
    rw [hreturned]
    exact List.mem_append_right _ (List.mem_singleton.2 rfl)
  -- a builder that returned options before stays as it is
  have hsame : s.builder.allFilters.Nodup → ∀ e ∈ s.returned,
      s.builder.config.filters = [] ∧ ∀ o, (s.step .getOpts).now o = s.now o := by
    intro hnodup e he
    have hnil := filters_config_eq_nil h (List.ne_nil_of_mem he) hnodup
    refine ⟨hnil, now_congr ?_⟩
    rw [step_getOpts]
    show s.builder.getOpts.1.filters = _
    rw [ConsumerOptsBuilderImpl.getOpts_fst_of_nil hnil]
  constructor
  · intro hrep
    have hnodup := (once_getOpts_iff h).1 (hrep.once _ hnew)
    refine ⟨⟨?_, ?_, ?_⟩, hnodup⟩
    · exact fun e he e' he' => hrep.equal e (hold e he) e' (hold e' he')
    · exact fun e he => hrep.once e (hold e he)
    · intro e he
      rw [← (hsame hnodup e he).2]
      exact hrep.kept e (hold e he)
  · rintro ⟨hrep, hnodup⟩
    have hlast : ∀ e ∈ s.returned, e.calls = s.calls → e.opts = s.builder.getOpts.2 :=
      fun e he => h.same (hsame hnodup e he).1 e he
    constructor
    · rw [hreturned]
      intro e he e' he' hcalls
      rcases List.mem_append.1 he with he | he
      · rcases List.mem_append.1 he' with he' | he'
        · exact hrep.equal e he e' he' hcalls
        · rw [List.mem_singleton.1 he'] at hcalls ⊢
          exact hlast e he hcalls
      · rw [List.mem_singleton.1 he] at hcalls ⊢
        rcases List.mem_append.1 he' with he' | he'
        · exact (hlast e' he' hcalls.symm).symm
        · rw [List.mem_singleton.1 he']
    · rw [hreturned]
      intro e he
      rcases List.mem_append.1 he with he | he
      · exact hrep.once e he
      · rw [List.mem_singleton.1 he]
        exact (once_getOpts_iff h).2 hnodup
    · rw [hreturned]
      intro e he
      rcases List.mem_append.1 he with he | he
      · rw [(hsame hnodup e he).2]
        exact hrep.kept e he
      · rw [List.mem_singleton.1 he]
        exact s.now_getOpts

theorem repeatable_filterSubject (h : s.Inv) (subject : String) :
    (s.step (.filterSubject subject)).Repeatable ↔ s.Repeatable ∧
      s.Spares (.filterSubject subject) := by
  constructor
  · intro hrep
    have hspares : s.Spares (.filterSubject subject) := by
      intro e he
      cases hshares : e.opts.sharesFilters with
      | false => rfl
      | true =>
          -- the array has one more than what the options had
          obtain ⟨subjects, heq, -, hprefix⟩ := h.shared e he hshares
          have hnow := (now_eq_iff hshares).1 (hrep.kept e he)
          rw [heq] at hnow
          have hlonger : s.builder.filters.getD [] ++ [subject] = subjects := Option.some.inj hnow
          have hle := hprefix.length_le
          rw [← hlonger, List.length_append] at hle
          exact absurd hle (Nat.not_succ_le_self _)
    refine ⟨⟨hrep.equal, hrep.once, fun e he => ?_⟩, hspares⟩
    exact now_of_not_shares (hspares e he)
  · rintro ⟨hrep, hspares⟩
    exact ⟨hrep.equal, hrep.once, fun e he => now_of_not_shares (hspares e he)⟩

theorem repeatable_keeps {b : ConsumerOptsBuilderImpl} (hkeeps : s.builder.Keeps b) :
    ({ s with builder := b, calls := s.calls + 1 } : BuilderSession).Repeatable ↔ s.Repeatable := by
  have hnow : ∀ o, ({ s with builder := b, calls := s.calls + 1 } : BuilderSession).now
    o = s.now o :=
    now_congr hkeeps.1
  constructor
  · intro hrep
    refine ⟨hrep.equal, hrep.once, fun e he => ?_⟩
    rw [← hnow]
    exact hrep.kept e he
  · intro hrep
    refine ⟨hrep.equal, hrep.once, fun e he => ?_⟩
    rw [hnow]
    exact hrep.kept e he

/-- **One call** keeps the options as they should be exactly where it spares them. -/
theorem repeatable_step (h : s.Inv) (c : BuilderCall) :
    (s.step c).Repeatable ↔ s.Repeatable ∧ s.Spares c := by
  rcases s.step_cases c with rfl | ⟨subject, rfl⟩ | ⟨hspares, b, hkeeps, heq⟩
  · exact repeatable_getOpts h
  · exact repeatable_filterSubject h subject
  · rw [heq, repeatable_keeps hkeeps]
    exact (and_iff_left hspares).symm

/-- **Building options is repeatable** exactly where no `getOpts` finds a subject twice, be it that
it was given twice or that an earlier `getOpts` moved it, and no subject is given to an array that
was returned. -/
theorem repeatable_iff_meets (opts : ConsumerConfig) (cs : List BuilderCall) :
    (cs.foldl step (new opts)).Repeatable ↔ Meets (fun s c => some (s.step c)) Spares
      (new opts) cs := by
  have hinit : (new opts).Repeatable := by
    constructor
    · intro e he
      cases he
    · intro e he
      cases he
    · intro e he
      cases he
  refine (iff_meets (I := Inv) (C := Repeatable) ?_ ?_ (run_total step (new opts) cs)
    (inv_new opts)).trans (and_iff_right hinit)
  · rintro s c s' hs ⟨⟩
    exact inv_step hs c
  · rintro s c s' hs ⟨⟩
    exact repeatable_step hs c

/-- A configuration with one filter subject, and `getOpts` twice. -/
theorem not_repeatable : ¬ ∀ (opts : ConsumerConfig) (cs : List BuilderCall),
    (cs.foldl step (new opts)).Repeatable := by
  intro hall
  have hrep := hall ⟨.empty, some "a", none⟩ [.getOpts, .getOpts]
  have hinv := inv_step (inv_new ⟨.empty, some "a", none⟩) .getOpts
  have hnodup := ((repeatable_step hinv .getOpts).1 hrep).2
  have hfilters : ((new ⟨.empty, some "a", none⟩).step .getOpts).builder.allFilters = ["a", "a"] :=
    by rfl
  rw [Spares, hfilters] at hnodup
  revert hnodup
  decide

end BuilderSession

end NatsClient.JetStream
