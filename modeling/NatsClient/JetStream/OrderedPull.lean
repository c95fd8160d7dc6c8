import NatsClient.Foundation.Numbering
import NatsClient.Foundation.Run

/-!
# The ordered pull consumer

Model of `OrderedPullConsumerImpl` (`consumer.ts`) in `consume`, with the default start policy:
`resetConsumer`, `reset`, `internalHandler` and `notifyOrderedResetAndReset`, and what `setSource`
of `OrderedConsumerMessages` does to the sources. The stream is the predicate `p` of the matching
sequence numbers. A server-side consumer started at `s` may deliver any of its numbered messages
at any time and any number of times; so losses, duplicates and delays are all runs.

`reset` awaits the create request and only then binds the handler, to the serial it reads at that
time. Where a second reset was started in between, the handler of the older consumer carries the
newer serial, and its deliveries are accepted (`not_exactlyOnce`). Where every create that completes
has the start sequence of the latest reset, each message is delivered exactly once and in order
(`exactlyOnce_of_current`).
-/

set_option autoImplicit false

namespace NatsClient.JetStream

open NatsClient.Foundation

/-- `cursor`: the last sequence delivered, in the stream and in the current consumer. -/
structure Cursor where
  streamSeq : Nat
  deliverSeq : Nat
deriving DecidableEq, Repr

/-- A source made by `reset`: the serial of its handler, the start of the server-side consumer it
pulls from, and whether it was stopped or has its `resetHandler`. -/
structure Source where
  serial : Nat
  start : Nat
  stopped : Bool
  resetHandler : Bool
deriving DecidableEq, Repr

/-- The fields of `OrderedPullConsumerImpl`. `creates` are the start sequences of the create
requests in flight, `binding` the sources whose `setSource` is still to run, `src` the source of the
iterator. `lastStart` logs the start sequence of the latest reset, `delivered` the sequences handed
to the user. -/
structure OrderedPullConsumer where
  serial : Nat
  cursor : Cursor
  consuming : Bool
  creates : List Nat
  sources : List Source
  binding : List Nat
  src : Option Nat
  lastStart : Nat
  delivered : List Nat
deriving DecidableEq, Repr

/-- What can happen. -/
inductive PullEvent where
  | consume
  | created (k : Nat)
  | createRejected (k : Nat)
  | setSource (j : Nat)
  | deliver (j dseq sseq : Nat)
  | resetHandler (j : Nat)
  | stop (j : Nat)
deriving DecidableEq, Repr

namespace OrderedPullConsumer

/-- The constructor, `startSeq` being `opt_start_seq` or `0`. -/
def new (startSeq : Nat) : OrderedPullConsumer where
  serial := 0
  cursor := ⟨if 0 < startSeq then startSeq - 1 else 0, 0⟩
  consuming := false
  creates := []
  sources := []
  binding := []
  src := none
  lastStart := (if 0 < startSeq then startSeq - 1 else 0) + 1
  delivered := []

/-- `resetConsumer(seq)` up to its `await`, with the new serial of `getConsumerOpts`. -/
def resetConsumer (c : OrderedPullConsumer) (seq : Nat) : OrderedPullConsumer :=
  let seq := if seq = 0 then 1 else seq
  { c with
    cursor := { c.cursor with deliverSeq := 0 }
    serial := c.serial + 1
    creates := c.creates ++ [seq]
    lastStart := seq }

/-- `notifyOrderedResetAndReset()`: a reset up to its `await`. -/
def notifyOrderedResetAndReset (c : OrderedPullConsumer) : OrderedPullConsumer :=
  c.resetConsumer (c.cursor.streamSeq + 1)

/-- `reset` behind the `await` of a create request that started at `start`. -/
def bind (c : OrderedPullConsumer) (start : Nat) : OrderedPullConsumer :=
  -- `internalHandler` is given the serial the consumer has now
  { c with
    sources := c.sources ++ [⟨c.serial, start, false, false⟩]
    binding := c.binding ++ [c.sources.length] }

/-- `setSource` of the iterator: the source it had loses its handlers and is stopped. -/
def setSource (c : OrderedPullConsumer) (j : Nat) : OrderedPullConsumer :=
  let sources :=
    match c.src with
    | some i => c.sources.modify i fun s => { s with resetHandler := false, stopped := true }
    | none => c.sources
  { c with
    sources := sources.modify j fun s => { s with resetHandler := true }
    binding := c.binding.erase j
    src := some j }

/-- `internalHandler(serial)` on a message. -/
def internalHandler (c : OrderedPullConsumer) (serial dseq sseq : Nat) : OrderedPullConsumer :=
  if c.serial ≠ serial then c
  else if dseq ≠ c.cursor.deliverSeq + 1 then c.notifyOrderedResetAndReset
  else { c with cursor := ⟨sseq, dseq⟩, delivered := c.delivered ++ [sseq] }

section

variable (p : Nat → Prop) [DecidablePred p]

/-- One event; `none` where it cannot happen. -/
def step (c : OrderedPullConsumer) : PullEvent → Option OrderedPullConsumer
  | .consume =>
      if c.consuming then none
      else some { c.resetConsumer (c.cursor.streamSeq + 1) with consuming := true }
  | .created k =>
      -- the requests are answered in any order
      match c.creates[k]? with
      | some start => some { c.bind start with creates := c.creates.eraseIdx k }
      | none => none
  | .createRejected k =>
      if k < c.creates.length then some { c with creates := c.creates.eraseIdx k } else none
  | .setSource j => if j ∈ c.binding then some (c.setSource j) else none
  | .deliver j dseq sseq =>
      match c.sources[j]? with
      | some s =>
          -- a consumer numbers what it delivers from its start sequence on
          if ¬ s.stopped ∧ Numbered p s.start dseq sseq then
            some (c.internalHandler s.serial dseq sseq)
          else none
      | none => none
  | .resetHandler j =>
      match c.sources[j]? with
      | some s => if s.resetHandler then some c.notifyOrderedResetAndReset else none
      | none => none
  | .stop j =>
      some { c with sources := c.sources.modify j fun s => { s with stopped := true } }

/-- The condition on a step: a create request that completes has the start sequence of the latest
reset. -/
def Current (c : OrderedPullConsumer) : PullEvent → Prop
  | .created k => c.creates[k]? = some c.lastStart
  | _ => True

instance (c : OrderedPullConsumer) : (e : PullEvent) → Decidable (c.Current e)
  | .created _ => inferInstanceAs (Decidable (_ = _))
  | .consume | .createRejected _ | .setSource _ | .deliver .. | .resetHandler _ | .stop _ =>
      inferInstanceAs (Decidable True)

/-! ## The invariant -/

/-- The invariant of the runs in which creates complete for the latest reset only; `first` is the
first sequence to deliver. -/
structure Inv (first : Nat) (c : OrderedPullConsumer) : Prop where
  /-- The cursor is in step with a consumer created for the latest reset. -/
  inStep : InStep p c.lastStart c.cursor.deliverSeq (c.cursor.streamSeq + 1)
  /-- A handler with the current serial pulls from such a consumer. -/
  bound : ∀ s ∈ c.sources, s.serial ≤ c.serial ∧ (s.serial = c.serial → s.start = c.lastStart)
  first_le : first ≤ c.cursor.streamSeq + 1
  delivered_eq : c.delivered = matching p first (c.cursor.streamSeq + 1)

section

variable {p} {first : Nat} {c c' : OrderedPullConsumer}

theorem inv_new (startSeq : Nat) : Inv p ((new startSeq).cursor.streamSeq + 1) (new startSeq) where
  inStep := InStep.restart p _
  bound := fun s hs => by cases hs
  first_le := Nat.le_refl _
  delivered_eq := (matching_self p _).symm

/-- A reset starts behind the last message delivered, under a serial no handler has yet. -/
theorem Inv.reset (h : Inv p first c) : Inv p first c.notifyOrderedResetAndReset where
  inStep := InStep.restart p _
  bound := by
    intro s hs
    have hle := (h.bound s hs).1
    refine ⟨Nat.le_succ_of_le hle, fun heq => ?_⟩
    have hsucc : s.serial = c.serial + 1 := heq
    omega
  first_le := h.first_le
  delivered_eq := h.delivered_eq

/-- Changes to sources that keep their serials and starts. -/
theorem Inv.of_sources (h : Inv p first c) (hsame : c'.serial = c.serial ∧ c'.cursor = c.cursor ∧
      c'.lastStart = c.lastStart ∧ c'.delivered = c.delivered)
    (hsources : ∀ s' ∈ c'.sources, ∃ s ∈ c.sources, s'.serial = s.serial ∧ s'.start = s.start) :
    Inv p first c' := by
  obtain ⟨hserial, hcursor, hstart, hdel⟩ := hsame
  constructor
  · rw [hcursor, hstart]
    exact h.inStep
  · intro s' hs'
    obtain ⟨s, hs, hser, hst⟩ := hsources s' hs'
    rw [hserial, hstart, hser, hst]
    exact h.bound s hs
  · rw [hcursor]
    exact h.first_le
  · rw [hdel, hcursor]
    exact h.delivered_eq

theorem mem_modify {l : List Source} {i : Nat} {f : Source → Source} {s' : Source}
    (hs' : s' ∈ l.modify i f) (hf : ∀ s, (f s).serial = s.serial ∧ (f s).start = s.start) :
    ∃ s ∈ l, s'.serial = s.serial ∧ s'.start = s.start := by
  obtain ⟨k, hk, hget⟩ := List.mem_iff_getElem.1 hs'
  rw [List.length_modify] at hk
  refine ⟨l[k], List.getElem_mem hk, ?_⟩
  rw [List.getElem_modify] at hget
  by_cases hik : i = k
  · rw [if_pos hik] at hget
    rw [← hget]
    exact hf _
  · rw [if_neg hik] at hget
    rw [← hget]
    exact ⟨rfl, rfl⟩

/-- A message of a consumer bound under the current serial is the next one, or it starts a reset. -/
theorem Inv.internalHandler {s : Source} {dseq sseq : Nat} (h : Inv p first c) (hs : s ∈ c.sources)
    (hnum : Numbered p s.start dseq sseq) : Inv p first (c.internalHandler s.serial dseq sseq) := by
  unfold OrderedPullConsumer.internalHandler
  by_cases hserial : c.serial ≠ s.serial
  · rw [if_pos hserial]
    exact h
  · rw [if_neg hserial]
    by_cases hgap : dseq ≠ c.cursor.deliverSeq + 1
    · rw [if_pos hgap]
      exact h.reset
    · rw [if_neg hgap]
      have hstart : s.start = c.lastStart := (h.bound s hs).2 (not_not.1 hserial).symm
      have hdseq : dseq = c.cursor.deliverSeq + 1 := not_not.1 hgap
      rw [hstart, hdseq] at hnum
      obtain ⟨hle, hcount, hnext⟩ := h.inStep.next hnum
      refine ⟨?_, h.bound, ?_, ?_⟩
      · show InStep p c.lastStart dseq (sseq + 1)
        rw [hdseq]
        exact hnext
      · show first ≤ sseq + 1
        exact (h.first_le.trans hle).trans (Nat.le_succ sseq)
      · show c.delivered ++ [sseq] = matching p first (sseq + 1)
        rw [h.delivered_eq]
        exact matching_append h.first_le hle hnum.1 hcount

/-- **One event.** -/
theorem inv_step {e : PullEvent} (h : Inv p first c) (hcur : c.Current e)
    (hstep : c.step p e = some c') : Inv p first c' := by
  cases e with
  | consume =>
      by_cases hc : c.consuming = true
      · simp only [step, if_pos hc] at hstep
        cases hstep
      · simp only [step, if_neg hc, Option.some.injEq] at hstep
        rw [← hstep]
        have hreset := h.reset
        exact ⟨hreset.inStep, hreset.bound, hreset.first_le, hreset.delivered_eq⟩
  | created k =>
      -- the consumer that is created starts where the counters stand
      have hk : c.creates[k]? = some c.lastStart := hcur
      simp only [step, hk, Option.some.injEq] at hstep
      rw [← hstep]
      refine ⟨h.inStep, fun s hs => ?_, h.first_le, h.delivered_eq⟩
      rcases List.mem_append.1 hs with hs | hs
      · exact h.bound s hs
      · rw [List.mem_singleton.1 hs]
        exact ⟨Nat.le_refl _, fun _ => rfl⟩
  | createRejected k =>
      by_cases hk : k < c.creates.length
      · simp only [step, if_pos hk, Option.some.injEq] at hstep
        rw [← hstep]
        exact ⟨h.inStep, h.bound, h.first_le, h.delivered_eq⟩
      · simp only [step, if_neg hk] at hstep
        cases hstep
  | setSource j =>
      by_cases hj : j ∈ c.binding
      · simp only [step, if_pos hj, Option.some.injEq] at hstep
        rw [← hstep]
        refine h.of_sources ⟨rfl, rfl, rfl, rfl⟩ (fun s' hs' => ?_)
        -- the source before it is stopped, and keeps its numbering
        obtain ⟨s₁, hs₁, hser, hst⟩ := mem_modify hs' (fun _ => ⟨rfl, rfl⟩)
        cases hsrc : c.src with
        | none =>
            rw [hsrc] at hs₁
            exact ⟨s₁, hs₁, hser, hst⟩
        | some i =>
            rw [hsrc] at hs₁
            obtain ⟨s, hs, hser', hst'⟩ := mem_modify hs₁ (fun _ => ⟨rfl, rfl⟩)
            exact ⟨s, hs, hser.trans hser', hst.trans hst'⟩
      · simp only [step, if_neg hj] at hstep
        cases hstep
  | deliver j dseq sseq =>
      cases hs : c.sources[j]? with
      | none =>
          simp only [step, hs] at hstep
          cases hstep
      | some s =>
          simp only [step, hs] at hstep
          -- only a source that goes on delivers
          by_cases hg : ¬ s.stopped ∧ Numbered p s.start dseq sseq
          · rw [if_pos hg] at hstep
            cases hstep
            exact h.internalHandler (List.mem_of_getElem? hs) hg.2
          · rw [if_neg hg] at hstep
            cases hstep
  | resetHandler j =>
      cases hs : c.sources[j]? with
      | none =>
          simp only [step, hs] at hstep
          cases hstep
      | some s =>
          simp only [step, hs] at hstep
          by_cases hr : s.resetHandler = true
          · rw [if_pos hr] at hstep
            cases hstep
            -- a gap or a lost heartbeat makes a new consumer
            exact h.reset
          · rw [if_neg hr] at hstep
            cases hstep
  | stop j =>
      simp only [step, Option.some.injEq] at hstep
      rw [← hstep]
      exact h.of_sources ⟨rfl, rfl, rfl, rfl⟩ (fun s' hs' => mem_modify hs' (fun _ => ⟨rfl, rfl⟩))

end

end

/-- **The ordered pull consumer delivers exactly once and in order** in the runs whose create
requests complete for the latest reset only. -/
theorem exactlyOnce_of_current (p : Nat → Prop) [DecidablePred p] (startSeq : Nat)
    (es : List PullEvent) {c : OrderedPullConsumer} (hrun : run (step p) (new startSeq) es = some c)
    (hcur : Meets (step p) Current (new startSeq) es) : ExactlyOnce p c.delivered := by
  have hinv := invariant_run_of_meets (fun _ _ _ h hc hstep => inv_step h hc hstep) hrun hcur
    (inv_new startSeq)
  rw [hinv.delivered_eq]
  exact exactlyOnce_matching p _ _

/-- A gap in the deliveries, and the reset it starts. -/
theorem exactlyOnce_of_current_gap :
    ∃ c, run (step fun _ => True) (new 0)
        [.consume, .created 0, .setSource 0, .deliver 0 1 1, .deliver 0 3 3, .created 0,
          .setSource 1, .deliver 1 1 2, .deliver 1 2 3] = some c ∧ c.delivered = [1, 2, 3] ∧
      ExactlyOnce (fun _ => True) c.delivered :=
  ⟨_, rfl, rfl, exactlyOnce_of_current (fun _ => True) 0
    [.consume, .created 0, .setSource 0, .deliver 0 1 1, .deliver 0 3 3, .created 0, .setSource 1,
      .deliver 1 1 2, .deliver 1 2 3] rfl (by decide)⟩

/-- A gap and the reset handler start two resets at sequence 2. The first one completes and delivers
2 and 3; a second gap starts a reset at 4. When the second create completes, its handler is bound
to the serial of the third reset, and message 2 is delivered again. -/
theorem not_exactlyOnce :
    ¬ ∀ (startSeq : Nat) (es : List PullEvent) (c : OrderedPullConsumer),
      run (step fun _ => True) (new startSeq) es = some c →
      ExactlyOnce (fun _ => True) c.delivered := by
  intro h
  have honce := h 0 [.consume, .created 0, .setSource 0, .deliver 0 1 1, .deliver 0 3 3,
    .resetHandler 0, .created 0, .setSource 1, .deliver 1 1 2, .deliver 1 2 3, .deliver 1 4 5,
    .created 0, .deliver 2 1 2] _ rfl
  have hsorted := honce.1
  revert hsorted
  decide

end OrderedPullConsumer

end NatsClient.JetStream
