import NatsClient.Foundation.Numbering
import NatsClient.Foundation.Run

/-!
# The ordered push consumer

Model of `JetStreamSubscriptionImpl` (`jsclient.ts`) for an ordered consumer with deliver policy
all: `_checkOrderedConsumer`, `_checkHbOrderConsumer`, the handler of missed heartbeats and
`_resetOrderedConsumer` with the `_resub` it calls. The stream is the predicate `p` of the matching
sequence numbers.

Every reset moves the subscription to a fresh inbox under a fresh sid and asks for a consumer that
delivers to that inbox. The server may execute any request it was ever sent, and a consumer may
deliver any of its numbered messages to its inbox at any time and any number of times; a message
arrives under the sid its inbox was subscribed with. The invariant ties the two: what arrives under
the current sid comes from a consumer the counters are in step with (`Inv`), so every run delivers
exactly once and in order (`exactlyOnce_of_run`).
-/

set_option autoImplicit false

namespace NatsClient.JetStream

open NatsClient.Foundation

/-- The fields of a consumer configuration that a reset writes and the server goes by. Inboxes are
numbered in the order in which `createInbox` makes them. -/
structure DeliverConfig where
  deliverSubject : Nat
  optStartSeq : Nat
deriving DecidableEq, Repr

/-- An ordered push subscription: whether the connection takes subscriptions and whether the
subscription is closed, its sid and subject, the counters of the connection and of `createInbox`,
`ordered_consumer_sequence` and `config` of its info. `subs` logs the subscriptions made with their
sids, `requests` the create requests sent, `delivered` the sequences handed to the user. -/
structure OrderedPushSubscription where
  connectionOpen : Bool
  closed : Bool
  sid : Nat
  subject : Nat
  sidCounter : Nat
  inboxes : Nat
  deliverySeq : Nat
  streamSeq : Nat
  config : DeliverConfig
  subs : List (Nat × Nat)
  requests : List DeliverConfig
  delivered : List Nat
deriving DecidableEq, Repr

/-- What can happen. -/
inductive PushEvent where
  | message (sid dseq sseq : Nat)
  | heartbeat (sid lastDelivered : Nat)
  | heartbeatsMissed
  | recreated (k : Nat)
  | otherSubscription
  | close
  | connectionClose
deriving DecidableEq, Repr

namespace OrderedPushSubscription

/-- Behind `subscribe`: the subscription is made and its consumer requested. -/
def new : OrderedPushSubscription where
  connectionOpen := true
  closed := false
  sid := 1
  subject := 1
  sidCounter := 1
  inboxes := 1
  deliverySeq := 0
  streamSeq := 0
  config := ⟨1, 1⟩
  subs := [(1, 1)]
  requests := [⟨1, 1⟩]
  delivered := []

/-- `_resub(sub, subject)`: the subscription moves to another subject under a new sid. -/
def resub (s : OrderedPushSubscription) (subject : Nat) : OrderedPushSubscription :=
  { s with
    sid := s.sidCounter + 1
    sidCounter := s.sidCounter + 1
    subject := subject
    subs := s.subs ++ [(s.sidCounter + 1, subject)] }

/-- `_resetOrderedConsumer(sseq)`. On a connection that takes no subscriptions `_resub` throws
before anything is changed. -/
def resetOrderedConsumer (s : OrderedPushSubscription) (sseq : Nat) : OrderedPushSubscription :=
  if s.closed ∨ ¬ s.connectionOpen then s
  else
    let newDeliver := s.inboxes + 1
    let config := { s.config with deliverSubject := newDeliver, optStartSeq := sseq }
    { { s with inboxes := newDeliver }.resub newDeliver with
      deliverySeq := 0
      config := config
      requests := s.requests ++ [config] }

/-- `_checkOrderedConsumer(jm)`, and the push behind it. -/
def checkOrderedConsumer (s : OrderedPushSubscription) (dseq sseq : Nat) :
    OrderedPushSubscription :=
  if dseq ≠ s.deliverySeq + 1 then s.resetOrderedConsumer (s.streamSeq + 1)
  else { s with deliverySeq := dseq, streamSeq := sseq, delivered := s.delivered ++ [sseq] }

/-- `_checkHbOrderConsumer(msg)`. -/
def checkHbOrderConsumer (s : OrderedPushSubscription) (lastDelivered : Nat) :
    OrderedPushSubscription :=
  if lastDelivered ≠ s.deliverySeq then s.resetOrderedConsumer (s.streamSeq + 1) else s

section

variable (p : Nat → Prop) [DecidablePred p]

/-- The server sends message `sseq` with delivery sequence `dseq` under the sid: a consumer that was
requested delivers it to the inbox that was subscribed with this sid. -/
def Sent (s : OrderedPushSubscription) (sid dseq sseq : Nat) : Prop :=
  ∃ r ∈ s.requests, (sid, r.deliverSubject) ∈ s.subs ∧ Numbered p r.optStartSeq dseq sseq

instance (s : OrderedPushSubscription) (sid dseq sseq : Nat) : Decidable (s.Sent p sid dseq sseq) :=
  inferInstanceAs (Decidable (∃ r ∈ s.requests, _))

/-- One event; `none` where it cannot happen. -/
def step (s : OrderedPushSubscription) : PushEvent → Option OrderedPushSubscription
  | .message sid dseq sseq =>
      if s.Sent p sid dseq sseq then
        -- the table of the connection has the current sid only
        if s.closed ∨ sid ≠ s.sid then some s else some (s.checkOrderedConsumer dseq sseq)
      else none
  | .heartbeat sid lastDelivered =>
      if s.closed ∨ sid ≠ s.sid then some s else some (s.checkHbOrderConsumer lastDelivered)
  | .heartbeatsMissed => some (s.resetOrderedConsumer (s.streamSeq + 1))
  | .recreated k =>
      match s.requests[k]? with
      | some config => some { s with config := config }
      | none => none
  | .otherSubscription => some { s with sidCounter := s.sidCounter + 1 }
  | .close => some { s with closed := true }
  | .connectionClose => some { s with connectionOpen := false, closed := true }

/-! ## The invariant -/

/-- The invariant of every run. -/
structure Inv (s : OrderedPushSubscription) : Prop where
  /-- The current sid is subscribed to the current subject only. -/
  subs : ∀ x ∈ s.subs, x.1 ≤ s.sidCounter ∧ (x.1 = s.sid → x.2 = s.subject)
  /-- A consumer that delivers to the current subject is one the counters are in step with. -/
  requests : ∀ r ∈ s.requests, r.deliverSubject ≤ s.inboxes ∧
    (r.deliverSubject = s.subject → InStep p r.optStartSeq s.deliverySeq (s.streamSeq + 1))
  delivered_eq : s.delivered = matching p 1 (s.streamSeq + 1)

section

variable {p} {s s' : OrderedPushSubscription}

theorem inv_new : Inv p new where
  subs := by
    intro x hx
    rw [List.mem_singleton.1 hx]
    exact ⟨Nat.le_refl 1, fun _ => rfl⟩
  requests := by
    intro r hr
    rw [List.mem_singleton.1 hr]
    exact ⟨Nat.le_refl 1, fun _ => InStep.restart p 1⟩
  delivered_eq := (matching_self p 1).symm

/-- A reset leaves every earlier consumer behind on an inbox the subscription is no longer
subscribed to. -/
theorem Inv.reset (h : Inv p s) : Inv p (s.resetOrderedConsumer (s.streamSeq + 1)) := by
  unfold resetOrderedConsumer
  by_cases hoff : s.closed = true ∨ ¬ s.connectionOpen = true
  · rw [if_pos hoff]
    exact h
  · rw [if_neg hoff]
    refine ⟨fun x hx => ?_, fun r hr => ?_, h.delivered_eq⟩
    · show x.1 ≤ s.sidCounter + 1 ∧ (x.1 = s.sidCounter + 1 → x.2 = s.inboxes + 1)
      rcases List.mem_append.1 hx with hx | hx
      · have hle := (h.subs x hx).1
        exact ⟨by omega, fun heq => by omega⟩
      · rw [List.mem_singleton.1 hx]
        exact ⟨Nat.le_refl _, fun _ => rfl⟩
    · show r.deliverSubject ≤ s.inboxes + 1 ∧
        (r.deliverSubject = s.inboxes + 1 → InStep p r.optStartSeq 0 (s.streamSeq + 1))
      rcases List.mem_append.1 hr with hr | hr
      · have hle := (h.requests r hr).1
        exact ⟨by omega, fun heq => by omega⟩
      · rw [List.mem_singleton.1 hr]
        exact ⟨Nat.le_refl _, fun _ => InStep.restart p _⟩

/-- A message under the current sid is the next one, or it starts a reset. -/
theorem Inv.checkOrderedConsumer {dseq sseq : Nat} (h : Inv p s)
    (hsent : s.Sent p s.sid dseq sseq) : Inv p (s.checkOrderedConsumer dseq sseq) := by
  unfold OrderedPushSubscription.checkOrderedConsumer
  by_cases hgap : dseq ≠ s.deliverySeq + 1
  · rw [if_pos hgap]
    exact h.reset
  · rw [if_neg hgap]
    have hdseq : dseq = s.deliverySeq + 1 := not_not.1 hgap
    have hnext : ∀ r ∈ s.requests, r.deliverSubject = s.subject →
        Numbered p r.optStartSeq dseq sseq → s.streamSeq + 1 ≤ sseq ∧
          Nat.count p (s.streamSeq + 1) = Nat.count p sseq ∧
          InStep p r.optStartSeq dseq (sseq + 1) := by
      intro r hr hsubject hnum
      rw [hdseq] at hnum ⊢
      exact ((h.requests r hr).2 hsubject).next hnum
    obtain ⟨r, hr, hsub, hnum⟩ := hsent
    have hsubject : r.deliverSubject = s.subject := (h.subs _ hsub).2 rfl
    obtain ⟨hle, hcount, -⟩ := hnext r hr hsubject hnum
    refine ⟨h.subs, fun r' hr' => ⟨(h.requests r' hr').1, fun hsubject' => ?_⟩, ?_⟩
    · -- every consumer on this inbox is in step, so each numbers the message the same way
      have hstep := (h.requests r' hr').2 hsubject'
      have hnum' : Numbered p r'.optStartSeq dseq sseq := by
        have hsucc : Nat.count p (sseq + 1) = Nat.count p sseq + 1 :=
          Nat.count_succ_eq_succ_count_iff.2 hnum.1
        have heq := hstep.2
        exact ⟨hnum.1, hstep.1.trans hle, by omega⟩
      exact (hnext r' hr' hsubject' hnum').2.2
    · show s.delivered ++ [sseq] = matching p 1 (sseq + 1)
      rw [h.delivered_eq]
      exact matching_append (Nat.le_add_left 1 _) hle hnum.1 hcount

/-- **One event.** -/
theorem inv_step {e : PushEvent} (h : Inv p s) (hstep : s.step p e = some s') : Inv p s' := by
  cases e with
  | message sid dseq sseq =>
      by_cases hsent : s.Sent p sid dseq sseq
      · by_cases hold : s.closed = true ∨ sid ≠ s.sid
        · simp only [step, if_pos hsent, if_pos hold, Option.some.injEq] at hstep
          rw [← hstep]
          exact h
        · simp only [step, if_pos hsent, if_neg hold, Option.some.injEq] at hstep
          rw [← hstep]
          -- what is left are the messages of the subscription that is current
          have hsid : sid = s.sid := by
            by_contra hne
            exact hold (Or.inr hne)
          rw [hsid] at hsent
          exact h.checkOrderedConsumer hsent
      · simp only [step, if_neg hsent] at hstep
        cases hstep
  | heartbeat sid lastDelivered =>
      by_cases hold : s.closed = true ∨ sid ≠ s.sid
      · simp only [step, if_pos hold, Option.some.injEq] at hstep
        rw [← hstep]
        exact h
      · simp only [step, if_neg hold, Option.some.injEq] at hstep
        rw [← hstep]
        unfold checkHbOrderConsumer
        by_cases hgap : lastDelivered ≠ s.deliverySeq
        · rw [if_pos hgap]
          exact h.reset
        · rw [if_neg hgap]
          exact h
  | heartbeatsMissed =>
      cases hstep
      exact h.reset
  | recreated k =>
      cases hk : s.requests[k]? with
      | none =>
          simp only [step, hk] at hstep
          cases hstep
      | some config =>
          simp only [step, hk, Option.some.injEq] at hstep
          rw [← hstep]
          -- `reset` has set the cursor when it asked for the consumer
          exact ⟨h.subs, h.requests, h.delivered_eq⟩
  | otherSubscription =>
      cases hstep
      exact ⟨fun x hx => ⟨Nat.le_succ_of_le (h.subs x hx).1, (h.subs x hx).2⟩, h.requests,
        h.delivered_eq⟩
  | close =>
      cases hstep
      exact ⟨h.subs, h.requests, h.delivered_eq⟩
  | connectionClose =>
      cases hstep
      exact ⟨h.subs, h.requests, h.delivered_eq⟩

end

end

/-- **The ordered push consumer delivers exactly once and in order**, whatever is dropped,
duplicated or delayed and whichever of the requested consumers deliver. -/
theorem exactlyOnce_of_run (p : Nat → Prop) [DecidablePred p] (es : List PushEvent)
    {s : OrderedPushSubscription} (hrun : run (step p) new es = some s) :
    ExactlyOnce p s.delivered := by
  have hinv := invariant_run (fun _ _ _ h hstep => inv_step h hstep) hrun (inv_new (p := p))
  rw [hinv.delivered_eq]
  exact exactlyOnce_matching p _ _

/-- A gap, missed heartbeats before the second consumer delivers, and late messages of the first
and of the second one. -/
theorem exactlyOnce_of_run_gap :
    ∃ s, run (step fun _ => True) new
        [.message 1 1 1, .message 1 3 3, .heartbeatsMissed, .message 1 2 2, .message 2 1 2,
          .recreated 1, .message 3 1 2, .message 3 1 2, .message 4 1 3] = some s ∧
      s.delivered = [1, 2, 3] ∧ ExactlyOnce (fun _ => True) s.delivered :=
  ⟨_, rfl, rfl, exactlyOnce_of_run (fun _ => True)
    [.message 1 1 1, .message 1 3 3, .heartbeatsMissed, .message 1 2 2, .message 2 1 2,
      .recreated 1, .message 3 1 2, .message 3 1 2, .message 4 1 3] rfl⟩

end OrderedPushSubscription

end NatsClient.JetStream
