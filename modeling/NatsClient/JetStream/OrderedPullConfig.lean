import NatsClient.JetStream.OrderedPull
import NatsClient.JetStream.StreamState

/-!
# The consumers that an ordered pull consumer asks for

Model of what `OrderedPullConsumerImpl` (`consumer.ts`) sends to create a consumer on the server:
`getConsumerOpts`, `resetConsumer`, and the methods that come to it (`reset` in `consume`, in
`fetch` and behind `notifyOrderedResetAndReset`, `info`, `delete`).

`getConsumerOpts` takes the request for the initial one where `seq === this.startSeq + 1`. Without
`opt_start_seq` that is a request from `1`. With it the initial request is from `startSeq` itself:
its policy, time and inactivity threshold are dropped (`drops_inactive_threshold`), and the request
behind the message `startSeq` is the one that gets them. `info` asks from `startSeq`, whatever was
delivered. The policy all keeps the sequence `1`.

`creations_as_given_iff`: the consumers of a run are as the options have it exactly if each request
meets `CreatesAsGiven`.
-/

set_option autoImplicit false

namespace NatsClient.JetStream

open NatsClient.Foundation

/-- `DeliverPolicy`. -/
inductive DeliverPolicyName where
  | All
  | Last
  | New
  | StartSequence
  | StartTime
  | LastPerSubject
deriving DecidableEq, Repr

/-- `filter_subject`, `filter_subjects`, or neither. -/
inductive FilterSubjects where
  | none
  | one (subject : Text)
  | many (subjects : List Text)
deriving DecidableEq, Repr

/-- `OrderedConsumerOptions`, with `0` and `none` for what is not given; durations are in
milliseconds. -/
structure OrderedConsumerOptions where
  filterSubjects : FilterSubjects
  deliverPolicy : Option DeliverPolicyName
  optStartSeq : Nat
  optStartTime : Option Text
  replayPolicy : Option Text
  inactiveThreshold : Nat
  headersOnly : Bool
deriving DecidableEq, Repr

/-- The fields of `ConsumerConfig` that `getConsumerOpts` and `resetConsumer` write, but for those
that are the same in every request (`ack_policy`, `num_replicas`, `max_deliver`, `mem_storage`). -/
structure OrderedConsumerConfig where
  name : Text
  deliverPolicy : DeliverPolicyName
  optStartSeq : Option Nat
  optStartTime : Option Text
  filters : FilterSubjects
  replayPolicy : Option Text
  inactiveThreshold : Nat
  headersOnly : Bool
deriving DecidableEq, Repr

/-- `nanos(millis)`. -/
def nanos (millis : Nat) : Nat := millis * 1000000

/-- Five minutes. -/
def defaultInactiveThreshold : Nat := 5 * 60 * 1000

/-- What `getConsumerOpts` does to an initial request. -/
def OrderedConsumerConfig.tweak (config : OrderedConsumerConfig) (opts : OrderedConsumerOptions) :
    OrderedConsumerConfig :=
  let config := { config with deliverPolicy := opts.deliverPolicy.getD .StartSequence }
  let config :=
    match opts.deliverPolicy with
    | some .LastPerSubject | some .New | some .Last => { config with optStartSeq := none }
    | some .All | some .StartSequence | some .StartTime | none => config
  -- this policy requires a filter
  let config :=
    if config.deliverPolicy = .LastPerSubject ∧ config.filters = .none then
      { config with filters := .one ['>'] }
    else config
  let config :=
    match opts.optStartTime with
    | some time =>
        { config with optStartSeq := none, deliverPolicy := .StartTime, optStartTime := some time }
    | none => config
  if opts.inactiveThreshold ≠ 0 then
    { config with inactiveThreshold := nanos opts.inactiveThreshold }
  else config

/-- `getConsumerOpts(seq)`, behind the change of the serial. -/
def getConsumerOpts (opts : OrderedConsumerOptions) (namePrefix : Text) (serial seq : Nat) :
    OrderedConsumerConfig :=
  let seq := if seq = 0 then 1 else seq
  let config : OrderedConsumerConfig :=
    { name := namePrefix ++ '_' :: (toString serial).toList
      deliverPolicy := .StartSequence
      optStartSeq := some seq
      optStartTime := none
      filters := opts.filterSubjects
      replayPolicy := opts.replayPolicy
      inactiveThreshold := nanos defaultInactiveThreshold
      headersOnly := opts.headersOnly }
  if seq = opts.optStartSeq + 1 then config.tweak opts else config

/-- `PullConsumerType`. -/
inductive PullConsumerType where
  | Unset
  | Consume
  | Fetch
deriving DecidableEq, Repr

/-- A request for a consumer: whether it is the first, the last stream sequence that was delivered
in front of it, and its configuration. -/
structure Creation where
  first : Bool
  last : Option Nat
  config : OrderedConsumerConfig
deriving DecidableEq, Repr

/-- The fields of `OrderedPullConsumerImpl` that a request depends on. `current` says that there is
a `currentConsumer`; `creating` are the requests that are not answered, `ending` the resets of a
fetch that await the end of its iterator. `last` logs the last stream sequence that was delivered,
and `creations` the requests. -/
structure OrderedPullRequests where
  opts : OrderedConsumerOptions
  namePrefix : Text
  type : PullConsumerType
  serial : Nat
  cursor : Cursor
  current : Bool
  creating : Nat
  ending : Nat
  last : Option Nat
  creations : List Creation
deriving DecidableEq, Repr

/-- What can happen: the user calls a method; a request is answered, or fails; a delete is answered;
a message arrives at the handler of a serial, or a source calls its `resetHandler`; the iterator of
a fetch ends. -/
inductive OrderedPullEvent where
  | consume
  | fetch
  | info
  | deleted
  | created
  | createFailed
  | message (serial dseq sseq : Nat)
  | resetHandler
  | iterClosed
deriving DecidableEq, Repr

namespace OrderedPullRequests

/-- The constructor. -/
def new (opts : OrderedConsumerOptions) (namePrefix : Text) : OrderedPullRequests where
  opts := opts
  namePrefix := namePrefix
  type := .Unset
  serial := 0
  cursor := ⟨if 0 < opts.optStartSeq then opts.optStartSeq - 1 else 0, 0⟩
  current := false
  creating := 0
  ending := 0
  last := none
  creations := []

/-- `resetConsumer(seq)`, up to its `await`. -/
def resetConsumer (c : OrderedPullRequests) (seq : Nat) : OrderedPullRequests :=
  let seq := if seq = 0 then 1 else seq
  { c with
    cursor := { c.cursor with deliverSeq := 0 }
    serial := c.serial + 1
    creating := c.creating + 1
    creations :=
      c.creations ++
        [⟨c.serial = 0, c.last, getConsumerOpts c.opts c.namePrefix (c.serial + 1) seq⟩] }

/-- `reset` from `consume` and from `fetch`. -/
def reset (c : OrderedPullRequests) : OrderedPullRequests :=
  if c.current then c else c.resetConsumer (c.cursor.streamSeq + 1)

/-- `notifyOrderedResetAndReset()`. -/
def notifyOrderedResetAndReset (c : OrderedPullRequests) : OrderedPullRequests :=
  if c.type = .Fetch then { c with ending := c.ending + 1 }
  else c.resetConsumer (c.cursor.streamSeq + 1)

/-- `internalHandler(serial)` on a message. -/
def internalHandler (c : OrderedPullRequests) (serial dseq sseq : Nat) : OrderedPullRequests :=
  if c.serial ≠ serial then c
  else if dseq ≠ c.cursor.deliverSeq + 1 then c.notifyOrderedResetAndReset
  else { c with cursor := ⟨sseq, dseq⟩, last := some sseq }

/-- One event; `none` where it cannot happen. -/
def step (c : OrderedPullRequests) : OrderedPullEvent → Option OrderedPullRequests
  | .consume => if c.type = .Unset then some { c with type := .Consume }.reset else none
  | .fetch => if c.type = .Consume then none else some { c with type := .Fetch }.reset
  | .info => some (if c.current then c else c.resetConsumer c.opts.optStartSeq)
  | .deleted => some { c with current := false }
  | .created =>
      if 0 < c.creating then some { c with creating := c.creating - 1, current := true } else none
  | .createFailed => if 0 < c.creating then some { c with creating := c.creating - 1 } else none
  | .message serial dseq sseq =>
      -- the handlers belong to a consumer that was asked for, and a stream starts with the sequence
      -- 1
      if 0 < serial ∧ 0 < sseq then some (c.internalHandler serial dseq sseq) else none
  | .resetHandler => if c.type = .Unset then none else some c.notifyOrderedResetAndReset
  | .iterClosed =>
      if 0 < c.ending then some { c with ending := c.ending - 1, current := false } else none

end OrderedPullRequests

/-! ## What the options have the requests ask for -/

/-- Where a configuration starts: the policy, with its sequence or its time. -/
def OrderedConsumerConfig.start (config : OrderedConsumerConfig) :
    DeliverPolicyName × Option Nat × Option Text :=
  (config.deliverPolicy, config.optStartSeq, config.optStartTime)

namespace OrderedConsumerOptions

/-- Where the options start. A time goes before a policy; a sequence belongs to the policy that
starts with one, which is the one where none is given. -/
def start (opts : OrderedConsumerOptions) : DeliverPolicyName × Option Nat × Option Text :=
  match opts.optStartTime, opts.deliverPolicy with
  | some time, _ => (.StartTime, none, some time)
  | none, none | none, some .StartSequence =>
      (.StartSequence, some (if opts.optStartSeq = 0 then 1 else opts.optStartSeq), none)
  | none, some policy => (policy, none, none)

/-- The filter of the options; last per subject requires one. -/
def startFilters (opts : OrderedConsumerOptions) : FilterSubjects :=
  if opts.deliverPolicy = some .LastPerSubject ∧ opts.filterSubjects = .none then .one ['>']
  else opts.filterSubjects

/-- The options start with a sequence. -/
def FromSequence (opts : OrderedConsumerOptions) : Prop :=
  opts.optStartTime = none ∧ (opts.deliverPolicy = none ∨ opts.deliverPolicy = some .StartSequence)

/-- The initial request has what the options have: without `opt_start_seq`, a policy that goes with
a sequence or without one; with it, nothing but the sequence. -/
def Startable (opts : OrderedConsumerOptions) (first : Bool) : Prop :=
  if opts.optStartSeq = 0 then
    opts.optStartTime ≠ none ∨ opts.deliverPolicy ≠ some .All ∧ opts.deliverPolicy ≠ some .StartTime
  else
    opts.FromSequence ∧
      (first = true → opts.inactiveThreshold = 0 ∨
        opts.inactiveThreshold = defaultInactiveThreshold)

instance (opts : OrderedConsumerOptions) : Decidable opts.FromSequence :=
  inferInstanceAs (Decidable (_ ∧ (_ ∨ _)))

instance (opts : OrderedConsumerOptions) (first : Bool) : Decidable (opts.Startable first) :=
  inferInstanceAs (Decidable (if opts.optStartSeq = 0 then _ ∨ _ ∧ _ else _ ∧ (_ → _ ∨ _)))

end OrderedConsumerOptions

/-- The request is as the options have it. While nothing was delivered it has their start, the first
one with all of the options; behind a delivery it starts with the next sequence. -/
def Creation.AsGiven (opts : OrderedConsumerOptions) (x : Creation) : Prop :=
  match x.last with
  | none =>
      x.config.start = opts.start ∧ x.config.filters = opts.startFilters ∧
        (x.first = true → x.config.headersOnly = opts.headersOnly ∧
          x.config.replayPolicy = opts.replayPolicy ∧
          x.config.inactiveThreshold =
            nanos
            (if opts.inactiveThreshold = 0 then defaultInactiveThreshold
              else opts.inactiveThreshold))
  | some last =>
      x.config.start = (.StartSequence, some (last + 1), none) ∧
        x.config.filters = opts.filterSubjects

instance decidableAsGiven (opts : OrderedConsumerOptions) :
    (x : Creation) → Decidable (x.AsGiven opts)
  | ⟨_, none, _⟩ => inferInstanceAs (Decidable (_ ∧ _ ∧ (_ → _ ∧ _ ∧ _)))
  | ⟨_, some _, _⟩ => inferInstanceAs (Decidable (_ ∧ _))

/-- Where an initial request for a sequence starts, once it is tweaked. -/
def OrderedConsumerOptions.tweakedStart (opts : OrderedConsumerOptions) (seq : Nat) :
    DeliverPolicyName × Option Nat × Option Text :=
  match opts.optStartTime, opts.deliverPolicy with
  | some time, _ => (.StartTime, none, some time)
  | none, none => (.StartSequence, some seq, none)
  | none, some .LastPerSubject => (.LastPerSubject, none, none)
  | none, some .New => (.New, none, none)
  | none, some .Last => (.Last, none, none)
  | none, some policy => (policy, some seq, none)

section

variable {opts : OrderedConsumerOptions} {config : OrderedConsumerConfig} {namePrefix : Text}
  {serial seq : Nat} {first : Bool}

/-- What `getConsumerOpts` does to an initial request, field by field. -/
theorem tweak_eq :
    config.tweak opts =
      { config with
        deliverPolicy :=
          if opts.optStartTime = none then opts.deliverPolicy.getD .StartSequence else .StartTime
        optStartSeq :=
          if opts.optStartTime = none ∧ opts.deliverPolicy ≠ some .LastPerSubject ∧
            opts.deliverPolicy ≠ some .New ∧ opts.deliverPolicy ≠ some .Last then config.optStartSeq
          else none
        optStartTime := opts.optStartTime.or config.optStartTime
        filters :=
          if opts.deliverPolicy = some .LastPerSubject ∧ config.filters = .none then .one ['>']
          else config.filters
        inactiveThreshold :=
          if opts.inactiveThreshold = 0 then config.inactiveThreshold
          else nanos opts.inactiveThreshold } := by
  obtain ⟨filters, policy, seq, time, replay, threshold, headersOnly⟩ := opts
  have hpolicy : ∀ p, (Option.some p).getD DeliverPolicyName.StartSequence = p := fun _ => rfl
  rw [OrderedConsumerConfig.tweak]
  by_cases hthreshold : threshold = 0 <;> by_cases hfilters : config.filters = .none <;>
    cases time <;>
    rcases policy with _ | p <;> try cases p
  all_goals simp [hthreshold, hfilters]

theorem start_getConsumerOpts (hseq : 0 < seq) :
    (getConsumerOpts opts namePrefix serial seq).start =
      if seq = opts.optStartSeq + 1 then opts.tweakedStart seq
      else (.StartSequence, some seq, none) := by
  have hone : (if seq = 0 then 1 else seq) = seq := if_neg (Nat.ne_of_gt hseq)
  rw [getConsumerOpts, hone]
  split
  · rw [tweak_eq]
    obtain ⟨filters, policy, start, time, replay, threshold, headersOnly⟩ := opts
    rcases time with _ | time
    · rcases policy with _ | _ | _ | _ | _ | _ | _ <;> rfl
    · rfl
  · rfl

theorem filters_getConsumerOpts (hseq : 0 < seq) :
    (getConsumerOpts opts namePrefix serial seq).filters =
      if seq = opts.optStartSeq + 1 then opts.startFilters else opts.filterSubjects := by
  have hone : (if seq = 0 then 1 else seq) = seq := if_neg (Nat.ne_of_gt hseq)
  rw [getConsumerOpts, hone]
  split
  · rw [tweak_eq]
    rfl
  · rfl

/-- The other options are in every request, but for the threshold. -/
theorem rest_getConsumerOpts (hseq : 0 < seq) :
    (getConsumerOpts opts namePrefix serial seq).headersOnly = opts.headersOnly ∧
      (getConsumerOpts opts namePrefix serial seq).replayPolicy = opts.replayPolicy ∧
      (getConsumerOpts opts namePrefix serial seq).inactiveThreshold =
        nanos (if seq = opts.optStartSeq + 1 ∧
          opts.inactiveThreshold ≠ 0 then opts.inactiveThreshold
          else defaultInactiveThreshold) := by
  have hone : (if seq = 0 then 1 else seq) = seq := if_neg (Nat.ne_of_gt hseq)
  rw [getConsumerOpts, hone]
  split
  · rename_i hinitial
    rw [tweak_eq]
    refine ⟨rfl, rfl, ?_⟩
    by_cases hthreshold : opts.inactiveThreshold = 0
    · simp [hthreshold]
    · simp [hthreshold, hinitial]
  · rename_i hlater
    refine ⟨rfl, rfl, ?_⟩
    rw [if_neg fun h => hlater h.1]

/-! ## Where a request is as the options have it -/

/-- Without `opt_start_seq`, from `1`. -/
theorem tweakedStart_eq_start (h : opts.optStartSeq = 0) :
    opts.tweakedStart 1 = opts.start ↔
      opts.optStartTime ≠ none ∨ opts.deliverPolicy ≠ some .All ∧
      opts.deliverPolicy ≠ some .StartTime := by
  obtain ⟨filters, policy, start, time, replay, threshold, headersOnly⟩ := opts
  cases h
  rcases time with _ | time
  · rcases policy with _ | _ | _ | _ | _ | _ | _ <;>
      simp [OrderedConsumerOptions.tweakedStart, OrderedConsumerOptions.start]
  · simp [OrderedConsumerOptions.tweakedStart, OrderedConsumerOptions.start]

/-- With `opt_start_seq`, from there. -/
theorem sequence_eq_start (h : 0 < opts.optStartSeq) :
    (DeliverPolicyName.StartSequence, some opts.optStartSeq, none) = opts.start ↔
      opts.FromSequence := by
  obtain ⟨filters, policy, start, time, replay, threshold, headersOnly⟩ := opts
  have hpos : 0 < start := h
  rcases time with _ | time
  · rcases policy with _ | _ | _ | _ | _ | _ | _ <;>
      simp [OrderedConsumerOptions.FromSequence, OrderedConsumerOptions.start, Nat.ne_of_gt hpos]
  · simp [OrderedConsumerOptions.FromSequence, OrderedConsumerOptions.start]

/-- Behind the message `opt_start_seq`. -/
theorem tweakedStart_eq_sequence :
    opts.tweakedStart seq = (.StartSequence, some seq, none) ↔ opts.FromSequence := by
  obtain ⟨filters, policy, start, time, replay, threshold, headersOnly⟩ := opts
  rcases time with _ | time
  · rcases policy with _ | _ | _ | _ | _ | _ | _ <;>
      simp [OrderedConsumerOptions.FromSequence, OrderedConsumerOptions.tweakedStart]
  · simp [OrderedConsumerOptions.FromSequence, OrderedConsumerOptions.tweakedStart]

/-- Options that start with a sequence have no policy that requires a filter. -/
theorem startFilters_of_fromSequence (h : opts.FromSequence) :
    opts.startFilters = opts.filterSubjects := by
  refine if_neg fun hlast => ?_
  rcases h.2 with hpolicy | hpolicy <;> rw [hpolicy] at hlast <;> exact absurd hlast.1 (by decide)

/-- No other sequence is asked for. -/
theorem seq_of_tweakedStart {n : Nat} (h : (opts.tweakedStart seq).2.1 = some n) : n = seq := by
  obtain ⟨filters, policy, start, time, replay, threshold, headersOnly⟩ := opts
  rcases time with _ | time
  · rcases policy with _ | _ | _ | _ | _ | _ | _ <;> cases h <;> rfl
  · cases h

theorem asGiven_some {last : Nat} :
    Creation.AsGiven opts ⟨first, some last, config⟩ ↔
      config.start = (.StartSequence, some (last + 1), none) ∧
      config.filters = opts.filterSubjects :=
  Iff.rfl

/-- While nothing was delivered. -/
theorem asGiven_initial (hseq : seq = if opts.optStartSeq = 0 then 1 else opts.optStartSeq) :
    Creation.AsGiven opts ⟨first, none, getConsumerOpts opts namePrefix serial seq⟩ ↔
      opts.Startable first := by
  have hpos : 0 < seq := by
    rw [hseq]
    split <;> omega
  obtain ⟨hheaders, hreplay, hthreshold⟩ := @rest_getConsumerOpts opts namePrefix serial seq hpos
  rw [Creation.AsGiven, start_getConsumerOpts hpos, filters_getConsumerOpts hpos, hheaders,
    hreplay, hthreshold, OrderedConsumerOptions.Startable]
  by_cases hzero : opts.optStartSeq = 0
  · -- the request is taken for the initial one
    have hone : seq = 1 := by rw [hseq, if_pos hzero]
    have hinitial : seq = opts.optStartSeq + 1 := by rw [hone, hzero]
    rw [if_pos hzero, if_pos hinitial, if_pos hinitial, hone, ← tweakedStart_eq_start hzero]
    refine ⟨fun h => h.1, fun h => ⟨h, rfl, fun _ => ⟨rfl, rfl, congrArg nanos ?_⟩⟩⟩
    by_cases hgiven : opts.inactiveThreshold = 0
    · simp [hgiven]
    · simp [hgiven, hzero]
  · -- it is not
    have hsame : seq = opts.optStartSeq := by rw [hseq, if_neg hzero]
    have hother : ¬ seq = opts.optStartSeq + 1 := by omega
    rw [if_neg hzero, if_neg hother, if_neg hother, if_neg fun h => hother h.1, hsame,
      sequence_eq_start (Nat.pos_of_ne_zero hzero)]
    have hnanos : nanos defaultInactiveThreshold =
        nanos
        (if opts.inactiveThreshold = 0 then defaultInactiveThreshold else opts.inactiveThreshold) ↔
          opts.inactiveThreshold = 0 ∨ opts.inactiveThreshold = defaultInactiveThreshold := by
      unfold nanos
      split <;> omega
    constructor
    · rintro ⟨hstart, -, hrest⟩
      exact ⟨hstart, fun hfirst => hnanos.1 (hrest hfirst).2.2⟩
    · rintro ⟨hstart, hrest⟩
      exact ⟨hstart, (startFilters_of_fromSequence hstart).symm,
        fun hfirst => ⟨rfl, rfl, hnanos.2 (hrest hfirst)⟩⟩

/-- Behind a delivery, from the next sequence. -/
theorem asGiven_next {last : Nat} :
    Creation.AsGiven opts ⟨first, some last, getConsumerOpts opts namePrefix serial (last + 1)⟩ ↔
      (last = opts.optStartSeq → opts.FromSequence) := by
  rw [asGiven_some, start_getConsumerOpts (Nat.succ_pos last),
    filters_getConsumerOpts (Nat.succ_pos last)]
  by_cases heq : last = opts.optStartSeq
  · rw [if_pos (by rw [heq]), if_pos (by rw [heq]), tweakedStart_eq_sequence]
    exact ⟨fun h _ => h.1, fun h => ⟨h heq, startFilters_of_fromSequence (h heq)⟩⟩
  · have hother : ¬ last + 1 = opts.optStartSeq + 1 := by omega
    rw [if_neg hother, if_neg hother]
    exact ⟨fun _ h => absurd h heq, fun _ => ⟨rfl, rfl⟩⟩

/-- Behind a delivery, from the start of the options. -/
theorem asGiven_info {last : Nat} (hlast : 0 < last)
    (hseq : seq = if opts.optStartSeq = 0 then 1 else opts.optStartSeq) :
    Creation.AsGiven opts ⟨first, some last, getConsumerOpts opts namePrefix serial seq⟩ ↔
      opts.optStartSeq = last + 1 := by
  have hpos : 0 < seq := by
    rw [hseq]
    split <;> omega
  rw [asGiven_some, start_getConsumerOpts hpos, filters_getConsumerOpts hpos]
  by_cases hzero : opts.optStartSeq = 0
  · have hone : seq = 1 := by rw [hseq, if_pos hzero]
    rw [if_pos (by omega), hone]
    constructor
    · rintro ⟨hstart, -⟩
      have hnext : last + 1 = 1 := seq_of_tweakedStart (congrArg (fun start => start.2.1) hstart)
      omega
    · intro h
      omega
  · have hsame : seq = opts.optStartSeq := by rw [hseq, if_neg hzero]
    have hother : ¬ seq = opts.optStartSeq + 1 := by omega
    rw [if_neg hother, if_neg hother, hsame]
    constructor
    · rintro ⟨hstart, -⟩
      exact Option.some.inj (congrArg (fun start => start.2.1) hstart)
    · intro h
      exact ⟨by rw [h], rfl⟩

end

/-! ## Runs -/

namespace OrderedPullRequests

/-- A request behind the cursor is as the options have it. -/
def NextAsGiven (c : OrderedPullRequests) : Prop :=
  match c.last with
  | none => c.opts.Startable (c.serial = 0)
  | some last => last = c.opts.optStartSeq → c.opts.FromSequence

/-- A request of `info` is as the options have it. -/
def InfoAsGiven (c : OrderedPullRequests) : Prop :=
  match c.last with
  | none => c.opts.Startable (c.serial = 0)
  | some last => c.opts.optStartSeq = last + 1

/-- The condition on a step: where it asks for a consumer, the request is as the options have it. -/
def CreatesAsGiven (c : OrderedPullRequests) : OrderedPullEvent → Prop
  | .consume | .fetch => c.current = false → c.NextAsGiven
  | .info => c.current = false → c.InfoAsGiven
  | .message serial dseq _ =>
      c.serial = serial → dseq ≠ c.cursor.deliverSeq + 1 → c.type ≠ .Fetch → c.NextAsGiven
  | .resetHandler => c.type ≠ .Fetch → c.NextAsGiven
  | .deleted | .created | .createFailed | .iterClosed => True

instance (c : OrderedPullRequests) : Decidable c.NextAsGiven :=
  match h : c.last with
  | none => decidable_of_iff (c.opts.Startable (c.serial = 0)) (by simp [NextAsGiven, h])
  | some last =>
      decidable_of_iff (last = c.opts.optStartSeq → c.opts.FromSequence) (by simp [NextAsGiven, h])

instance (c : OrderedPullRequests) : Decidable c.InfoAsGiven :=
  match h : c.last with
  | none => decidable_of_iff (c.opts.Startable (c.serial = 0)) (by simp [InfoAsGiven, h])
  | some last => decidable_of_iff (c.opts.optStartSeq = last + 1) (by simp [InfoAsGiven, h])

instance decidableCreatesAsGiven (c : OrderedPullRequests) :
    (e : OrderedPullEvent) → Decidable (c.CreatesAsGiven e)
  | .consume | .fetch | .info | .resetHandler => inferInstanceAs (Decidable (_ → _))
  | .message .. => inferInstanceAs (Decidable (_ → _ → _ → _))
  | .deleted | .created | .createFailed | .iterClosed => inferInstanceAs (Decidable True)

/-- The cursor is at the last delivery, or in front of the start of the options. -/
structure Inv (opts : OrderedConsumerOptions) (c : OrderedPullRequests) : Prop where
  given : c.opts = opts
  cursor : c.cursor.streamSeq = c.last.getD (opts.optStartSeq - 1)
  last : ∀ last ∈ c.last, 0 < last

/-- Every consumer that was asked for is as the options have it. -/
def AllAsGiven (opts : OrderedConsumerOptions) (c : OrderedPullRequests) : Prop :=
  ∀ x ∈ c.creations, x.AsGiven opts

section

variable {opts : OrderedConsumerOptions} {c c' : OrderedPullRequests} {seq : Nat}

theorem inv_new (namePrefix : Text) : Inv opts (new opts namePrefix) := by
  refine ⟨rfl, ?_, nofun⟩
  show (if 0 < opts.optStartSeq then opts.optStartSeq - 1 else 0) = opts.optStartSeq - 1
  split <;> omega

theorem Inv.resetConsumer (h : Inv opts c) (seq : Nat) : Inv opts (c.resetConsumer seq) :=
  ⟨h.given, h.cursor, h.last⟩

theorem allAsGiven_resetConsumer (h : Inv opts c) (seq : Nat) :
    AllAsGiven opts (c.resetConsumer seq) ↔ AllAsGiven opts c ∧
      Creation.AsGiven opts ⟨c.serial = 0, c.last,
        getConsumerOpts opts c.namePrefix (c.serial + 1) (if seq = 0 then 1 else seq)⟩ := by
  rw [AllAsGiven, OrderedPullRequests.resetConsumer, ← h.given]
  simp only [List.forall_mem_append, List.forall_mem_singleton]
  rfl

/-- **A request behind the cursor.** -/
theorem allAsGiven_next (h : Inv opts c) :
    AllAsGiven opts (c.resetConsumer (c.cursor.streamSeq + 1)) ↔ AllAsGiven opts c ∧
      c.NextAsGiven := by
  rw [allAsGiven_resetConsumer h, if_neg (Nat.succ_ne_zero _), NextAsGiven, h.cursor, h.given]
  refine and_congr_right fun _ => ?_
  cases hlast : c.last with
  | none =>
      refine asGiven_initial ?_
      show opts.optStartSeq - 1 + 1 = if opts.optStartSeq = 0 then 1 else opts.optStartSeq
      split <;> omega
  | some last => exact asGiven_next

/-- **A request of `info`.** -/
theorem allAsGiven_info (h : Inv opts c) :
    AllAsGiven opts (c.resetConsumer c.opts.optStartSeq) ↔ AllAsGiven opts c ∧ c.InfoAsGiven := by
  rw [allAsGiven_resetConsumer h, InfoAsGiven, h.given]
  refine and_congr_right fun _ => ?_
  cases hlast : c.last with
  | none => exact asGiven_initial rfl
  | some last => exact asGiven_info (h.last last hlast) rfl

theorem Inv.notifyOrderedResetAndReset (h : Inv opts c) :
    Inv opts c.notifyOrderedResetAndReset := by
  unfold OrderedPullRequests.notifyOrderedResetAndReset
  split
  · exact ⟨h.given, h.cursor, h.last⟩
  · exact h.resetConsumer _

/-- A reset behind a gap asks for a consumer, but in a fetch. -/
theorem allAsGiven_notifyOrderedResetAndReset (h : Inv opts c) :
    AllAsGiven opts c.notifyOrderedResetAndReset ↔
      AllAsGiven opts c ∧ (c.type ≠ .Fetch → c.NextAsGiven) := by
  unfold OrderedPullRequests.notifyOrderedResetAndReset
  by_cases hfetch : c.type = .Fetch
  · rw [if_pos hfetch]
    exact (and_iff_left fun hne => absurd hfetch hne).symm
  · rw [if_neg hfetch, allAsGiven_next h]
    exact and_congr_right fun _ => ⟨fun hnext _ => hnext, fun hnext => hnext hfetch⟩

theorem Inv.reset (h : Inv opts c) : Inv opts c.reset := by
  unfold OrderedPullRequests.reset
  split
  · exact h
  · exact h.resetConsumer _

theorem allAsGiven_reset (h : Inv opts c) :
    AllAsGiven opts c.reset ↔ AllAsGiven opts c ∧ (c.current = false → c.NextAsGiven) := by
  unfold OrderedPullRequests.reset
  by_cases hcurrent : c.current = true
  · rw [if_pos hcurrent]
    refine (and_iff_left fun hnone => ?_).symm
    rw [hcurrent] at hnone
    cases hnone
  · rw [if_neg hcurrent, allAsGiven_next h]
    have hnone : c.current = false := Bool.eq_false_iff.2 hcurrent
    exact and_congr_right fun _ => ⟨fun hnext _ => hnext, fun hnext => hnext hnone⟩

/-- **One event.** -/
theorem Inv.step {e : OrderedPullEvent} (h : Inv opts c) (hs : c.step e = some c') :
    Inv opts c' := by
  cases e with
  | consume | fetch =>
      simp only [OrderedPullRequests.step] at hs
      split at hs <;> cases hs
      exact Inv.reset ⟨h.given, h.cursor, h.last⟩
  | info =>
      cases hs
      split
      · exact h
      · exact h.resetConsumer _
  | deleted =>
      cases hs
      exact ⟨h.given, h.cursor, h.last⟩
  | created | createFailed | iterClosed =>
      simp only [OrderedPullRequests.step] at hs
      split at hs <;> cases hs
      exact ⟨h.given, h.cursor, h.last⟩
  | message serial dseq sseq =>
      simp only [OrderedPullRequests.step, internalHandler] at hs
      split at hs
      · rename_i hpos
        cases hs
        split
        · exact h
        · split
          · exact h.notifyOrderedResetAndReset
          · refine ⟨h.given, rfl, fun last hlast => ?_⟩
            exact Option.some.inj hlast ▸ hpos.2
      · cases hs
  | resetHandler =>
      simp only [OrderedPullRequests.step] at hs
      split at hs <;> cases hs
      exact h.notifyOrderedResetAndReset

/-- **What one event asks for** is as the options have it exactly if it meets the condition. -/
theorem allAsGiven_step {e : OrderedPullEvent} (h : Inv opts c) (hs : c.step e = some c') :
    AllAsGiven opts c' ↔ AllAsGiven opts c ∧ c.CreatesAsGiven e := by
  cases e with
  | consume | fetch =>
      simp only [OrderedPullRequests.step] at hs
      split at hs <;> cases hs
      exact allAsGiven_reset ⟨h.given, h.cursor, h.last⟩
  | info =>
      cases hs
      by_cases hcurrent : c.current = true
      · -- the consumer of the call is there, so nothing is asked for
        rw [if_pos hcurrent]
        refine (and_iff_left fun hnone => ?_).symm
        rw [hcurrent] at hnone
        cases hnone
      · -- `info` has to make the consumer first
        rw [if_neg hcurrent, allAsGiven_info h]
        have hnone : c.current = false := Bool.eq_false_iff.2 hcurrent
        exact and_congr_right fun _ => ⟨fun hinfo _ => hinfo, fun hinfo => hinfo hnone⟩
  | deleted =>
      cases hs
      exact (and_iff_left trivial).symm
  | created | createFailed | iterClosed =>
      simp only [OrderedPullRequests.step] at hs
      split at hs <;> cases hs
      exact (and_iff_left trivial).symm
  | message serial dseq sseq =>
      simp only [OrderedPullRequests.step, internalHandler] at hs
      split at hs
      · cases hs
        by_cases hserial : c.serial = serial
        · rw [if_neg (not_not.2 hserial)]
          by_cases hgap : dseq ≠ c.cursor.deliverSeq + 1
          · -- a gap is followed by a new consumer
            rw [if_pos hgap, allAsGiven_notifyOrderedResetAndReset h]
            exact and_congr_right fun _ => ⟨fun hnext _ _ => hnext, fun hnext => hnext hserial hgap⟩
          · rw [if_neg hgap]
            exact (and_iff_left fun _ hne => absurd hne hgap).symm
        · rw [if_pos hserial]
          exact (and_iff_left fun heq => absurd heq hserial).symm
      · cases hs
  | resetHandler =>
      simp only [OrderedPullRequests.step] at hs
      split at hs <;> cases hs
      exact allAsGiven_notifyOrderedResetAndReset h

end

/-- **The consumers of an ordered pull consumer are as the options have it** exactly if each step
that asks for one meets the condition. -/
theorem creations_as_given_iff (opts : OrderedConsumerOptions) (namePrefix : Text)
    (c : OrderedPullRequests) (events : List OrderedPullEvent)
    (hrun : run step (new opts namePrefix) events = some c) :
    (∀ x ∈ c.creations, x.AsGiven opts) ↔
      Meets step CreatesAsGiven (new opts namePrefix) events := by
  have hiff := iff_meets (I := Inv opts) (C := AllAsGiven opts) (fun _ _ _ h hs => h.step hs)
    (fun _ _ _ h hs => allAsGiven_step h hs) hrun (inv_new namePrefix)
  exact hiff.trans (and_iff_right nofun)

/-- From the second message, with a gap behind the third. -/
def fromSecond : OrderedConsumerOptions :=
  ⟨.one ['a'], some .StartSequence, 2, none, none, 0, false⟩

theorem creations_as_given_iff_fromSecond :
    ∃ c, run step (new fromSecond ['o'])
        [.consume, .created, .message 1 1 2, .message 1 2 3, .message 1 4 5] = some c ∧
      c.creations.map (fun x => x.config.optStartSeq) = [some 2, some 4] ∧
      ∀ x ∈ c.creations, x.AsGiven fromSecond :=
  ⟨_, rfl, rfl, (creations_as_given_iff fromSecond ['o'] _
    [.consume, .created, .message 1 1 2, .message 1 2 3, .message 1 4 5] rfl).2 (by decide)⟩

/-- From the fifth message, with an inactivity threshold. -/
def fromFifth : OrderedConsumerOptions := ⟨.none, none, 5, none, none, 1000, false⟩

/-- **The first consumer is not as the options have it**: with a start sequence the request from
there is not taken for the initial one, and their inactivity threshold is dropped. -/
theorem drops_inactive_threshold :
    ∃ c, run step (new fromFifth ['o']) [.consume] = some c ∧
      c.creations.map (fun x => x.config.inactiveThreshold) = [nanos 300000] ∧
      ¬ ∀ x ∈ c.creations, x.AsGiven fromFifth :=
  ⟨_, rfl, rfl, by decide⟩

end OrderedPullRequests

end NatsClient.JetStream
