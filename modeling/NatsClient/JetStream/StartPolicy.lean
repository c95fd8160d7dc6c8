import NatsClient.JetStream.DeliverPolicy
import NatsClient.JetStream.OrderedPush

/-!
# The start policy of an ordered push consumer

The deliver policy of an ordered subscription is in the request for its first consumer only. Every
reset asks for a consumer from behind the last sequence that was delivered
(`_resetOrderedConsumer`), and before anything is delivered that sequence is `0`
(`ordered_consumer_sequence` in `_processOptions`): the next consumer starts with the first message
of the stream, whatever the policy was (`delivers_excluded`). With the policy last per subject a
consumer from behind the last delivered sequence delivers what is superseded in the same way.

The client is `OrderedPushSubscription`. Beside it stand the stream, and the consumers that the
server made of the requests, as feeds of it. What was sent may arrive at any time, and any number of
times. `opt_start_time` stays in the configuration that a reset sends; that a server may refuse it
is left out.

As long as a reset leaves nothing behind that the policy excludes, and nothing of this kind is
stored behind a reset, nothing that the policy excludes is delivered (`delivers_only_included`).
-/

set_option autoImplicit false

namespace NatsClient.JetStream

open NatsClient.Foundation

variable {β : Type}

/-- A message on its way to an inbox, with its delivery sequence. -/
structure SentMsg (β : Type) where
  inbox : Nat
  deliverySeq : Nat
  msg : StoredMsg β

/-- An ordered subscription, the stream, the consumers with the inboxes they deliver to, all that
they sent, and the messages that the user was handed. -/
structure PolicySubscription (β : Type) where
  client : OrderedPushSubscription
  stream : StreamState β
  consumers : List (Nat × Feed β)
  sent : List (SentMsg β)
  handed : List (StoredMsg β)

/-- What can happen: the stream changes, the server makes a consumer of a request, a consumer
delivers its next message, a message arrives under a sid, or what the client does without one. -/
inductive PolicyEvent (β : Type) where
  | publish (p : Publication β) (time : Nat)
  | remove (seq : Nat)
  | purge (filter : Text) (keep : Nat)
  | create (k : Nat)
  | deliver (k : Nat)
  | arrive (k sid : Nat)
  | client (e : PushEvent)

/-- `_resetOrderedConsumer` is carried out. -/
def OrderedPushSubscription.Resets (c : OrderedPushSubscription) (e : PushEvent) : Prop :=
  (c.closed = false ∧ c.connectionOpen = true) ∧
    match e with
    | .message sid dseq _ => sid = c.sid ∧ dseq ≠ c.deliverySeq + 1
    | .heartbeat sid lastDelivered => sid = c.sid ∧ lastDelivered ≠ c.deliverySeq
    | .heartbeatsMissed => True
    | .recreated _ | .otherSubscription | .close | .connectionClose => False

instance OrderedPushSubscription.decidableResets (c : OrderedPushSubscription) :
    (e : PushEvent) → Decidable (c.Resets e)
  | .message .. | .heartbeat .. => inferInstanceAs (Decidable (_ ∧ _ ∧ _))
  | .heartbeatsMissed => inferInstanceAs (Decidable (_ ∧ True))
  | .recreated _ | .otherSubscription | .close | .connectionClose =>
      inferInstanceAs (Decidable (_ ∧ False))

namespace PolicySubscription

/-- Behind `subscribe`: the consumer is made, with the policy. -/
def subscribe (policy : DeliverPolicy) (filter : Text → Bool) (stream : StreamState β) :
    PolicySubscription β where
  client := .new
  stream := stream
  consumers := [(1, Feed.create stream policy filter)]
  sent := []
  handed := []

/-- A message arrives: `_checkOrderedConsumer`, and the push behind it. -/
def check (s : PolicySubscription β) (x : SentMsg β) : PolicySubscription β :=
  { s with
    client := s.client.checkOrderedConsumer x.deliverySeq x.msg.seq
    handed := if x.deliverySeq = s.client.deliverySeq + 1 then s.handed ++ [x.msg] else s.handed }

/-- A subscription of the server is looked up as a pair. -/
scoped instance lawfulBEqSub : LawfulBEq (Nat × Nat) := inferInstance

/-- One event; `none` where it cannot happen. -/
def step (filter : Text → Bool) (s : PolicySubscription β) :
    PolicyEvent β → Option (PolicySubscription β)
  | .publish p time =>
      if s.stream.accepts p then some { s with stream := s.stream.append p time } else none
  | .remove seq => some { s with stream := s.stream.remove seq }
  | .purge purged keep => some { s with stream := s.stream.purge purged keep }
  | .create k =>
      -- the first request was for the consumer of `subscribe`
      match s.client.requests.tail[k]? with
      | some r =>
          some { s with
            consumers := s.consumers ++
              [(r.deliverSubject, Feed.create s.stream (.StartSequence r.optStartSeq) filter)] }
      | none => none
  | .deliver k =>
      match s.consumers[k]? with
      | some (inbox, f) =>
          match f.pending s.stream with
          | m :: _ =>
              some { s with
                consumers := s.consumers.set k (inbox, f.deliver m)
                sent := s.sent ++ [⟨inbox, f.consumerSeq + 1, m⟩] }
          | [] => none
      | none => none
  | .arrive k sid =>
      match s.sent[k]? with
      | some x =>
          if (sid, x.inbox) ∈ s.client.subs then
            if s.client.closed ∨ sid ≠ s.client.sid then some s else some (s.check x)
          else none
      | none => none
  | .client e =>
      -- without a stream no message arrives
      (s.client.step (fun _ => False) e).map fun c => { s with client := c }

/-- The subscription is reset. -/
def Resets (s : PolicySubscription β) : PolicyEvent β → Prop
  | .arrive k sid =>
      match s.sent[k]? with
      | some x => s.client.Resets (.message sid x.deliverySeq x.msg.seq)
      | none => False
  | .client e => s.client.Resets e
  | .publish .. | .remove _ | .purge .. | .create _ | .deliver _ => False

instance decidableResets (s : PolicySubscription β) : (e : PolicyEvent β) → Decidable (s.Resets e)
  | .arrive k sid =>
      match h : s.sent[k]? with
      | some x =>
          decidable_of_iff (s.client.Resets (.message sid x.deliverySeq x.msg.seq))
            (by simp [Resets, h])
      | none => .isFalse (by simp [Resets, h])
  | .client e => inferInstanceAs (Decidable (s.client.Resets e))
  | .publish .. | .remove _ | .purge .. | .create _ | .deliver _ =>
      inferInstanceAs (Decidable False)

/-- What the policy of the subscription has the server deliver. -/
def Included (policy : DeliverPolicy) (filter : Text → Bool) (subscribed : StreamState β)
    (m : StoredMsg β) : Prop :=
  filter m.subject = true ∧ policy.includes subscribed filter m = true

/-- What the filter lets through and is stored behind the last sequence delivered, the policy
includes. -/
def NothingExcludedBehind (policy : DeliverPolicy) (filter : Text → Bool)
    (subscribed : StreamState β) (s : PolicySubscription β) : Prop :=
  ∀ m ∈ s.stream.msgs, filter m.subject = true → s.client.streamSeq < m.seq →
    policy.includes subscribed filter m = true

/-- A reset leaves nothing behind that the policy excludes, and behind a reset nothing is stored
that it excludes. -/
def KeepsPolicy (policy : DeliverPolicy) (filter : Text → Bool) (subscribed : StreamState β)
    (s : PolicySubscription β) (e : PolicyEvent β) : Prop :=
  (s.Resets e → s.NothingExcludedBehind policy filter subscribed) ∧
    match e with
    | .publish p time =>
        s.client.closed = false → s.client.requests.length ≠ 1 → filter p.subject = true →
          policy.includes subscribed filter ⟨p.subject, s.stream.lastSeq + 1, time, p.body⟩ = true
    | .remove _ | .purge .. | .create _ | .deliver _ | .arrive .. | .client _ => True

instance (policy : DeliverPolicy) (filter : Text → Bool) (subscribed : StreamState β)
    (s : PolicySubscription β) : Decidable (s.NothingExcludedBehind policy filter subscribed) :=
  inferInstanceAs (Decidable (∀ m ∈ s.stream.msgs, _ → _ → _))

instance decidableKeepsPolicy (policy : DeliverPolicy) (filter : Text → Bool)
    (subscribed : StreamState β) (s : PolicySubscription β) :
    (e : PolicyEvent β) → Decidable (s.KeepsPolicy policy filter subscribed e)
  | .publish .. => inferInstanceAs (Decidable (_ ∧ (_ → _ → _ → _)))
  | .remove _ | .purge .. | .create _ | .deliver _ | .arrive .. | .client _ =>
      inferInstanceAs (Decidable (_ ∧ True))

end PolicySubscription

/-! ## What the client asks for -/

namespace OrderedPushSubscription

/-- What a step asks the server for: nothing, or where it resets, a consumer from behind the last
sequence that was delivered. -/
structure Asks (resets : Prop) (c c' : OrderedPushSubscription) : Prop where
  requests : c'.requests = c.requests ∨
    resets ∧ ∃ inbox, c'.requests = c.requests ++ [⟨inbox, c.streamSeq + 1⟩]
  closed : c.closed = true → c'.closed = true

section

variable {c c' : OrderedPushSubscription}

theorem asks_nothing {resets : Prop} (hrequests : c'.requests = c.requests)
    (hclosed : c.closed = true → c'.closed = true) : Asks resets c c' :=
  ⟨.inl hrequests, hclosed⟩

theorem asks_reset {resets : Prop} (h : c.closed = false → c.connectionOpen = true → resets) :
    Asks resets c (c.resetOrderedConsumer (c.streamSeq + 1)) := by
  unfold resetOrderedConsumer
  split
  · exact asks_nothing rfl id
  · rename_i hopen
    obtain ⟨hclosed, hconnection⟩ := not_or.1 hopen
    exact ⟨.inr ⟨h (Bool.eq_false_iff.2 hclosed) (not_not.1 hconnection), _, rfl⟩, id⟩

/-- A message arrives under the sid of the subscription. -/
theorem asks_checkOrderedConsumer (dseq sseq : Nat) :
    Asks (c.Resets (.message c.sid dseq sseq)) c (c.checkOrderedConsumer dseq sseq) := by
  unfold checkOrderedConsumer
  split
  · rename_i hgap
    exact asks_reset fun hclosed hconnection => ⟨⟨hclosed, hconnection⟩, rfl, hgap⟩
  · exact asks_nothing rfl id

/-- Of an empty stream nothing is sent. -/
theorem not_sent (sid dseq sseq : Nat) : ¬ c.Sent (fun _ => False) sid dseq sseq := by
  rintro ⟨r, -, -, hnumbered⟩
  exact hnumbered.1

/-- What the client does without a message. -/
theorem asks_step {e : PushEvent} (h : c.step (fun _ => False) e = some c') :
    Asks (c.Resets e) c c' := by
  cases e with
  | message sid dseq sseq =>
      simp only [step, if_neg (not_sent sid dseq sseq)] at h
      cases h
  | heartbeat sid lastDelivered =>
      simp only [step, checkHbOrderConsumer] at h
      split at h
      · cases h
        exact asks_nothing rfl id
      · rename_i hcurrent
        split at h
        · rename_i hgap
          cases h
          have hsid : sid = c.sid := not_not.1 (not_or.1 hcurrent).2
          exact asks_reset fun hclosed hconnection => ⟨⟨hclosed, hconnection⟩, hsid, hgap⟩
        · cases h
          exact asks_nothing rfl id
  | heartbeatsMissed =>
      cases h
      exact asks_reset fun hclosed hconnection => ⟨⟨hclosed, hconnection⟩, trivial⟩
  | recreated k =>
      simp only [step] at h
      split at h
      · cases h
        exact asks_nothing rfl id
      · cases h
  | otherSubscription =>
      cases h
      exact asks_nothing rfl id
  | close | connectionClose =>
      cases h
      exact asks_nothing rfl fun _ => rfl

theorem delivered_resetOrderedConsumer (sseq : Nat) :
    (c.resetOrderedConsumer sseq).delivered = c.delivered := by
  unfold resetOrderedConsumer
  split <;> rfl

theorem delivered_checkOrderedConsumer (dseq sseq : Nat) :
    (c.checkOrderedConsumer dseq sseq).delivered =
      if dseq = c.deliverySeq + 1 then c.delivered ++ [sseq] else c.delivered := by
  rw [checkOrderedConsumer]
  by_cases hnext : dseq = c.deliverySeq + 1
  · rw [if_neg (not_not.2 hnext), if_pos hnext]
  · rw [if_pos hnext, if_neg hnext]
    exact delivered_resetOrderedConsumer _

/-- Without a message nothing is delivered. -/
theorem delivered_step {e : PushEvent} (h : c.step (fun _ => False) e = some c') :
    c'.delivered = c.delivered := by
  cases e with
  | message sid dseq sseq =>
      simp only [step, if_neg (not_sent sid dseq sseq)] at h
      cases h
  | heartbeat sid lastDelivered =>
      simp only [step, checkHbOrderConsumer] at h
      split at h
      · cases h
        rfl
      · split at h
        · cases h
          exact delivered_resetOrderedConsumer _
        · cases h
          rfl
  | heartbeatsMissed =>
      cases h
      exact delivered_resetOrderedConsumer _
  | recreated k =>
      simp only [step] at h
      split at h
      · cases h
        rfl
      · cases h
  | otherSubscription | close | connectionClose =>
      cases h
      rfl

end

end OrderedPushSubscription

/-! ## The invariant -/

namespace PolicySubscription

/-- As long as the subscription is open: what a consumer may still deliver, and what is on its way,
the policy includes. -/
structure Follows (policy : DeliverPolicy) (filter : Text → Bool) (subscribed : StreamState β)
    (s : PolicySubscription β) : Prop where
  /-- Nothing excluded is stored behind the start of a later consumer. -/
  recreated : ∀ r ∈ s.client.requests.tail, ∀ m ∈ s.stream.msgs, filter m.subject = true →
    r.optStartSeq ≤ m.seq → policy.includes subscribed filter m = true
  /-- A consumer is the one of `subscribe`, or one of the later ones. -/
  consumers : ∀ x ∈ s.consumers, ∀ m, x.2.eligible m = true →
    Included policy filter subscribed m ∨
      filter m.subject = true ∧ ∃ r ∈ s.client.requests.tail, r.optStartSeq ≤ m.seq
  sent : ∀ x ∈ s.sent, Included policy filter subscribed x.msg

/-- The invariant. -/
structure Inv (policy : DeliverPolicy) (filter : Text → Bool) (subscribed : StreamState β)
    (s : PolicySubscription β) : Prop where
  requests : s.client.requests ≠ []
  handed : ∀ m ∈ s.handed, Included policy filter subscribed m
  follows : s.client.closed = false → Follows policy filter subscribed s

section

variable {policy : DeliverPolicy} {filter : Text → Bool} {subscribed : StreamState β}
  {s s' : PolicySubscription β}

theorem inv_subscribe : Inv policy filter subscribed (subscribe policy filter subscribed) := by
  refine ⟨List.cons_ne_nil _ _, nofun, fun _ => ⟨nofun, fun x hx m hm => ?_, nofun⟩⟩
  rw [List.mem_singleton.1 hx] at hm
  exact .inl (Bool.and_eq_true_iff.1 hm)

/-- What is stored and a consumer may deliver, the policy includes. -/
theorem Follows.eligible {x : Nat × Feed β} {m : StoredMsg β}
    (h : Follows policy filter subscribed s) (hx : x ∈ s.consumers) (hm : m ∈ s.stream.msgs)
    (heligible : x.2.eligible m = true) : Included policy filter subscribed m := by
  rcases h.consumers x hx m heligible with hfirst | ⟨hfilter, r, hr, hseq⟩
  · exact hfirst
  · exact ⟨hfilter, h.recreated r hr m hm hfilter hseq⟩

/-- **A reset** leaves nothing behind that is excluded. -/
theorem Inv.asks {c : OrderedPushSubscription} {resets : Prop} (h : Inv policy filter subscribed s)
    (hasks : OrderedPushSubscription.Asks resets s.client c)
    (hbehind : resets → s.NothingExcludedBehind policy filter subscribed) :
    Inv policy filter subscribed { s with client := c } := by
  have htail : ∀ r ∈ c.requests.tail, r ∈ s.client.requests.tail ∨
      resets ∧ r.optStartSeq = s.client.streamSeq + 1 := by
    intro r hr
    rcases hasks.requests with hsame | ⟨hresets, inbox, hnew⟩
    · exact .inl (hsame ▸ hr)
    · rw [hnew, List.tail_append_of_ne_nil h.requests] at hr
      rcases List.mem_append.1 hr with hr | hr
      · exact .inl hr
      · exact .inr ⟨hresets, congrArg DeliverConfig.optStartSeq (List.mem_singleton.1 hr)⟩
  have hsub : ∀ r ∈ s.client.requests.tail, r ∈ c.requests.tail := by
    intro r hr
    rcases hasks.requests with hsame | ⟨-, inbox, hnew⟩
    · exact hsame ▸ hr
    · rw [hnew, List.tail_append_of_ne_nil h.requests]
      exact List.mem_append_left _ hr
  refine ⟨?_, h.handed, fun hopen => ?_⟩
  · rcases hasks.requests with hsame | ⟨-, inbox, hnew⟩
    · exact hsame ▸ h.requests
    · show c.requests ≠ []
      rw [hnew]
      exact List.append_ne_nil_of_left_ne_nil h.requests _
  · have hfollows := h.follows (Bool.eq_false_iff.2 fun hclosed => by
      have hclosed' := hasks.closed hclosed
      exact absurd (hopen.symm.trans hclosed') (by decide))
    refine ⟨fun r hr m hm hfilter hseq => ?_, fun x hx m hm => ?_, hfollows.sent⟩
    · rcases htail r hr with hr | ⟨hresets, hstart⟩
      · exact hfollows.recreated r hr m hm hfilter hseq
      · rw [hstart] at hseq
        exact hbehind hresets m hm hfilter hseq
    · rcases hfollows.consumers x hx m hm with hfirst | ⟨hfilter, r, hr, hseq⟩
      · exact .inl hfirst
      · exact .inr ⟨hfilter, r, hsub r hr, hseq⟩

/-- The stream keeps some of its messages, and what it stores behind them is included. -/
theorem Inv.stores {stream : StreamState β} (h : Inv policy filter subscribed s)
    (hstored : ∀ m ∈ stream.msgs, m ∈ s.stream.msgs ∨ (s.client.closed = false →
      s.client.requests.length ≠ 1 → filter m.subject = true →
      policy.includes subscribed filter m = true)) :
    Inv policy filter subscribed { s with stream := stream } := by
  refine ⟨h.requests, h.handed, fun hopen => ?_⟩
  have hfollows := h.follows hopen
  refine ⟨fun r hr m hm hfilter hseq => ?_, hfollows.consumers, hfollows.sent⟩
  rcases hstored m hm with hm | hnew
  · exact hfollows.recreated r hr m hm hfilter hseq
  · refine hnew hopen (fun hone => ?_) hfilter
    -- with one request there is no later consumer
    have hnone : s.client.requests.tail = [] := by
      rw [← List.length_eq_zero_iff, List.length_tail]
      exact Nat.sub_eq_zero_of_le (Nat.le_of_eq hone)
    have hr' : r ∈ s.client.requests.tail := hr
    rw [hnone] at hr'
    cases hr'

/-- A consumer is made of a later request. -/
theorem Inv.create {r : DeliverConfig} (h : Inv policy filter subscribed s)
    (hr : r ∈ s.client.requests.tail) :
    Inv policy filter subscribed { s with
      consumers := s.consumers ++
        [(r.deliverSubject, Feed.create s.stream (.StartSequence r.optStartSeq) filter)] } := by
  refine ⟨h.requests, h.handed, fun hopen => ?_⟩
  have hfollows := h.follows hopen
  refine ⟨hfollows.recreated, fun x hx m hm => ?_, hfollows.sent⟩
  rcases List.mem_append.1 hx with hx | hx
  · exact hfollows.consumers x hx m hm
  · rw [List.mem_singleton.1 hx] at hm
    obtain ⟨hfilter, hseq⟩ := Bool.and_eq_true_iff.1 hm
    exact .inr ⟨hfilter, r, hr, of_decide_eq_true hseq⟩

/-- A consumer delivers its next message. -/
theorem Inv.deliver {k inbox : Nat} {f : Feed β} {m : StoredMsg β} {rest : List (StoredMsg β)}
    (h : Inv policy filter subscribed s) (hk : s.consumers[k]? = some (inbox, f))
    (hm : f.pending s.stream = m :: rest) :
    Inv policy filter subscribed { s with
      consumers := s.consumers.set k (inbox, f.deliver m)
      sent := s.sent ++ [⟨inbox, f.consumerSeq + 1, m⟩] } := by
  refine ⟨h.requests, h.handed, fun hopen => ?_⟩
  have hfollows := h.follows hopen
  have hf := List.mem_of_getElem? hk
  have hpending : m ∈ f.pending s.stream := hm ▸ List.mem_cons_self
  obtain ⟨hstored, -, heligible⟩ := Feed.mem_pending.1 hpending
  refine ⟨hfollows.recreated, fun x hx m' hm' => ?_, fun x hx => ?_⟩
  · rcases List.mem_or_eq_of_mem_set hx with hx | rfl
    · exact hfollows.consumers x hx m' hm'
    · exact hfollows.consumers _ hf m' hm'
  · rcases List.mem_append.1 hx with hx | hx
    · exact hfollows.sent x hx
    · rw [List.mem_singleton.1 hx]
      exact hfollows.eligible hf hstored heligible

/-- A message arrives at the open subscription. -/
theorem Inv.check {x : SentMsg β} (h : Inv policy filter subscribed s) (hx : x ∈ s.sent)
    (hopen : s.client.closed = false)
    (hbehind : s.client.Resets (.message s.client.sid x.deliverySeq x.msg.seq) →
      s.NothingExcludedBehind policy filter subscribed) :
      Inv policy filter subscribed (s.check x) := by
  have hasks := h.asks (OrderedPushSubscription.asks_checkOrderedConsumer _ _) hbehind
  refine ⟨hasks.requests, fun m hm => ?_, fun hopen' => ?_⟩
  · change m ∈ (if x.deliverySeq = s.client.deliverySeq + 1 then s.handed ++ [x.msg]
      else s.handed) at hm
    split at hm
    · rcases List.mem_append.1 hm with hm | hm
      · exact h.handed m hm
      · exact List.mem_singleton.1 hm ▸ (h.follows hopen).sent x hx
    · exact h.handed m hm
  · have hfollows := hasks.follows hopen'
    exact ⟨hfollows.recreated, hfollows.consumers, hfollows.sent⟩

/-- **One event.** -/
theorem Inv.step {e : PolicyEvent β} (h : Inv policy filter subscribed s)
    (hok : s.KeepsPolicy policy filter subscribed e) (hs : s.step filter e = some s') :
    Inv policy filter subscribed s' := by
  cases e with
  | publish p time =>
      simp only [PolicySubscription.step] at hs
      split at hs
      · cases hs
        refine h.stores fun m hm => ?_
        -- a message is stored, which the policy includes if a later reset may ask for it
        rcases StreamState.mem_append hm with hm | rfl
        · exact .inl hm
        · exact .inr hok.2
      · cases hs
  | remove seq =>
      cases hs
      exact h.stores fun m hm => .inl (List.mem_of_mem_filter hm)
  | purge purged keep =>
      cases hs
      exact h.stores fun m hm => .inl ((dropMatching_sublist _ _).subset hm)
  | create k =>
      simp only [PolicySubscription.step] at hs
      split at hs
      · rename_i r hr
        cases hs
        exact h.create (List.mem_of_getElem? hr)
      · cases hs
  | deliver k =>
      simp only [PolicySubscription.step] at hs
      split at hs
      · rename_i inbox f hk
        split at hs
        · rename_i m rest hm
          cases hs
          exact h.deliver hk hm
        · cases hs
      · cases hs
  | arrive k sid =>
      simp only [PolicySubscription.step] at hs
      split at hs
      · rename_i x hk
        split at hs
        · split at hs
          · -- a message of an inbox that was left is dropped
            cases hs
            exact h
          · rename_i hcurrent
            cases hs
            obtain ⟨hopen, hsid⟩ := not_or.1 hcurrent
            obtain rfl : sid = s.client.sid := not_not.1 hsid
            exact h.check (List.mem_of_getElem? hk) (Bool.eq_false_iff.2 hopen)
              fun hresets => hok.1 (by simpa only [Resets, hk] using hresets)
        · cases hs
      · cases hs
  | client e =>
      obtain ⟨c, hc, rfl⟩ := Option.map_eq_some_iff.1 hs
      exact h.asks (OrderedPushSubscription.asks_step hc) hok.1

/-- The user is handed what the client delivers. -/
theorem handed_step {e : PolicyEvent β} (h : s.handed.map StoredMsg.seq = s.client.delivered)
    (hs : s.step filter e = some s') : s'.handed.map StoredMsg.seq = s'.client.delivered := by
  cases e with
  | publish | create | deliver =>
      simp only [PolicySubscription.step] at hs
      repeat' split at hs
      all_goals cases hs
      exact h
  | remove | purge =>
      cases hs
      exact h
  | arrive k sid =>
      simp only [PolicySubscription.step] at hs
      split at hs
      · rename_i x hk
        split at hs
        · split at hs
          · cases hs
            exact h
          · cases hs
            show (if x.deliverySeq = s.client.deliverySeq + 1 then s.handed ++ [x.msg]
                else s.handed).map _ =
              (s.client.checkOrderedConsumer x.deliverySeq x.msg.seq).delivered
            rw [OrderedPushSubscription.delivered_checkOrderedConsumer, ← h]
            split
            · exact List.map_append
            · rfl
        · cases hs
      · cases hs
  | client e =>
      obtain ⟨c, hc, rfl⟩ := Option.map_eq_some_iff.1 hs
      exact h.trans (OrderedPushSubscription.delivered_step hc).symm

end

/-- **What the user is handed**, in every run, are the sequences that the client has delivered. -/
theorem handed_of_run {policy : DeliverPolicy} {filter : Text → Bool} {stream : StreamState β}
    {s : PolicySubscription β} {events : List (PolicyEvent β)}
    (hrun : run (step filter) (subscribe policy filter stream) events = some s) :
    s.handed.map StoredMsg.seq = s.client.delivered :=
  invariant_run (I := fun s => s.handed.map StoredMsg.seq = s.client.delivered)
    (fun _ _ _ h hs => handed_step h hs) hrun rfl

/-- **An ordered push consumer delivers only what its start policy includes**, in every run in which
a reset leaves nothing behind that the policy excludes, and nothing of this kind is stored behind
one. -/
theorem delivers_only_included (policy : DeliverPolicy) (filter : Text → Bool)
    (stream : StreamState β) (s : PolicySubscription β) (events : List (PolicyEvent β))
    (hrun : run (step filter) (subscribe policy filter stream) events = some s)
    (hok : Meets (step filter) (KeepsPolicy policy filter stream)
      (subscribe policy filter stream) events) :
    ∀ m ∈ s.handed, filter m.subject = true ∧ policy.includes stream filter m = true :=
  (invariant_run_of_meets (fun _ _ _ h he hs => h.step he hs) hrun hok inv_subscribe).handed

/-- Two messages. -/
def twoStored : StreamState Unit :=
  ((StreamState.empty 10 (by decide)).push ['a'] () 0).push ['a'] () 0

/-- From the second message; heartbeats are missed behind it, and a third is published. -/
def resetBehindDelivery : List (PolicyEvent Unit) :=
  [.deliver 0, .arrive 0 1, .client .heartbeatsMissed, .publish ⟨['a'], (), false, none⟩ 0,
    .create 0, .deliver 1, .arrive 1 2]

theorem delivers_only_included_resetBehindDelivery :
    ∃ s, run (step fun _ => true) (subscribe (.StartSequence 2) (fun _ => true) twoStored)
        resetBehindDelivery = some s ∧ s.handed.map StoredMsg.seq = [2, 3] ∧
      ∀ m ∈ s.handed, true = true ∧ DeliverPolicy.includes (.StartSequence 2) twoStored
      (fun _ => true) m = true := by
  have hends : (run (step fun _ => true) (subscribe (.StartSequence 2) (fun _ => true) twoStored)
      resetBehindDelivery).any (fun s => s.handed.map StoredMsg.seq = [2, 3]) = true := by
    decide +kernel
  obtain ⟨s, hrun, hhanded⟩ := (Option.any_eq_true _ _).1 hends
  exact ⟨s, hrun, of_decide_eq_true hhanded,
    delivers_only_included (.StartSequence 2) (fun _ => true) twoStored s _ hrun
    (by decide +kernel)⟩

/-- Heartbeats are missed before the first delivery. -/
def resetBeforeDelivery : List (PolicyEvent Unit) :=
  [.client .heartbeatsMissed, .create 0, .deliver 1, .arrive 0 2]

/-- **An ordered push consumer delivers what its start policy excludes**: from the second message
on, it delivers the first one where heartbeats are missed before it has delivered any. -/
theorem delivers_excluded :
    ∃ s, run (step fun _ => true) (subscribe (.StartSequence 2) (fun _ => true) twoStored)
        resetBeforeDelivery = some s ∧
      ∃ m ∈ s.handed, DeliverPolicy.includes (.StartSequence 2) twoStored
      (fun _ => true) m = false := by
  have hends : (run (step fun _ => true) (subscribe (.StartSequence 2) (fun _ => true) twoStored)
      resetBeforeDelivery).any (fun s => ∃ m ∈ s.handed,
        DeliverPolicy.includes (.StartSequence 2) twoStored (fun _ => true) m = false) = true := by
    decide +kernel
  obtain ⟨s, hrun, hhanded⟩ := (Option.any_eq_true _ _).1 hends
  exact ⟨s, hrun, of_decide_eq_true hhanded⟩

end PolicySubscription

end NatsClient.JetStream
