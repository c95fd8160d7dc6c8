import NatsClient.JetStream.PullMeasure

/-!
# The pending counts of `consume`

What is pending is raised by each pull, and lowered by each message and by the counts of a status. A
reset zeroes it to invalidate the pulls from before, but what still arrives of these is taken off
the count of the new pull, and the next one asks for more than `max_messages`
(`consume_asks_for_too_many`). And a status without counts leads to another pull where the threshold
is reached, although nothing was taken off: with `max_messages: 1` it asks for a batch of `0`.

`Accounted`: what is still to come of the pulls since the last reset is pending, messages and bytes.
Where all that arrives belongs to these pulls, and a status without counts leads to no pull without
room, this is kept (`Accounted.step`), the counts stay in range, and so does every request
(`consume_in_range`).
-/

set_option autoImplicit false

namespace NatsClient.JetStream

open NatsClient.Foundation NatsClient.Iterator

/-- The two counts. -/
inductive Count where
  | msgs
  | bytes
deriving DecidableEq, Repr

/-- The limit of a count. -/
def PullConsumerOptions.limit (opts : PullConsumerOptions) : Count → Nat
  | .msgs => opts.maxMessages
  | .bytes => opts.maxBytes

/-- The pending count. -/
def Pending.count (p : Pending) : Count → Int
  | .msgs => p.msgs
  | .bytes => p.bytes

/-- A request in range. -/
def PullRequest.InRange (opts : PullConsumerOptions) (p : PullRequest) : Prop :=
  (0 < p.batch ∧ p.batch ≤ opts.maxMessages) ∧
    (opts.maxBytes ≠ 0 → 0 < p.maxBytes ∧ p.maxBytes ≤ opts.maxBytes)

/-- The counts and the requests are in range. -/
def PullConsumerMessages.InRange (c : PullConsumerMessages) : Prop :=
  (0 ≤ c.pending.msgs ∧ c.pending.msgs ≤ c.opts.maxMessages) ∧
    (0 ≤ c.pending.bytes ∧ c.pending.bytes ≤ c.opts.maxBytes) ∧
    ∀ p ∈ c.sent, p.InRange c.opts

instance (opts : PullConsumerOptions) (p : PullRequest) : Decidable (p.InRange opts) :=
  inferInstanceAs (Decidable ((_ ∧ _) ∧ (_ → _)))

instance (c : PullConsumerMessages) : Decidable c.InRange :=
  inferInstanceAs (Decidable ((_ ∧ _) ∧ (_ ∧ _) ∧ ∀ p ∈ c.sent, p.InRange c.opts))

/-! ## What is still to come since the last reset -/

/-- What a request asks for. -/
def PullRequest.count (p : PullRequest) : Count → Nat
  | .msgs => p.batch.toNat
  | .bytes => p.maxBytes.toNat

/-- What is left of a pull. -/
def HeldPull.count (p : HeldPull) : Count → Nat
  | .msgs => p.batch
  | .bytes => p.maxBytes

/-- What is taken off a count for what arrives; bytes count only where they have a limit. -/
def Inbound.count (opts : PullConsumerOptions) : Inbound → Count → Nat
  | .heartbeat, _ => 0
  | .message _ _, .msgs => 1
  | .message size _, .bytes => if opts.maxBytes = 0 then 0 else size
  | .status _ _ msgsLeft _ _, .msgs => msgsLeft
  | .status _ _ _ bytesLeft _, .bytes => bytesLeft

/-- The resets that a pull had before it. -/
def Inbound.generation : Inbound → Option Nat
  | .heartbeat => none
  | .message _ g | .status _ _ _ _ g => some g

/-- A message has a size; the counts of a status are those of a pull. -/
def Inbound.Sound (opts : PullConsumerOptions) : Inbound → Prop
  | .heartbeat => True
  | .message size _ => 0 < size
  | .status _ _ msgsLeft bytesLeft _ =>
      msgsLeft = 0 ∧ bytesLeft = 0 ∨ 0 < msgsLeft ∧ (0 < bytesLeft ↔ opts.maxBytes ≠ 0)

/-- The count that is still to come of the pulls behind the reset number `g`. -/
def sinceReset (opts : PullConsumerOptions) (k : Count) (g : Nat) : Measure where
  request p := if p.generation = g then p.count k else 0
  held p := if p.generation = g then p.count k else 0
  inbound i := if i.generation = some g then i.count opts k else 0
  requestOk p := p.InRange opts ∧ (opts.maxBytes = 0 → p.maxBytes = 0) ∧ p.generation ≤ g
  heldOk p := 0 < p.batch ∧ (0 < p.maxBytes ↔ opts.maxBytes ≠ 0) ∧ p.generation ≤ g
  inboundOk i := i.Sound opts ∧ ∀ g' ∈ i.generation, g' ≤ g
  publish p hp hpos := by
    obtain ⟨⟨hbatch, hbytes⟩, hunlimited, hg⟩ := hp
    refine ⟨⟨Int.pos_iff_toNat_pos.1 hpos, ⟨fun h hzero => ?_, fun h => ?_⟩, hg⟩, ?_⟩
    · rw [PullRequest.accepted, hunlimited hzero] at h
      exact absurd h (Nat.lt_irrefl 0)
    · exact Int.pos_iff_toNat_pos.1 (hbytes h).1
    · cases k <;> exact Nat.le_refl _
  answer p size hp hsize hmax := by
    obtain ⟨hbatch, hbytes, hg⟩ := hp
    refine ⟨?_, ⟨hsize, fun g' h => Option.some.inj h ▸ hg⟩, fun hspent => ?_⟩
    · -- what a message takes off its pull it carries on the wire
      have hcount : (p.less size).count k + (Inbound.message size p.generation).count opts k ≤
          p.count k := by
        cases k with
        | msgs => exact Nat.le_of_eq (Nat.sub_add_cancel hbatch)
        | bytes =>
            show p.maxBytes - size + (if opts.maxBytes = 0 then 0 else size) ≤ p.maxBytes
            split
            · exact Nat.sub_le ..
            · rename_i hlimited
              exact Nat.le_of_eq (Nat.sub_add_cancel (hmax (Nat.ne_of_gt (hbytes.2 hlimited))))
      by_cases hgen : p.generation = g
      · simpa [hgen, HeldPull.less, Inbound.generation] using hcount
      · simp [hgen, HeldPull.less, Inbound.generation]
    · obtain ⟨hmore, hbytesLeft⟩ := not_or.1 hspent
      refine ⟨Nat.pos_of_ne_zero hmore, ⟨fun h => ?_, fun h => ?_⟩, hg⟩
      · exact hbytes.1 (Nat.lt_of_lt_of_le h (Nat.sub_le ..))
      · refine Nat.pos_of_ne_zero fun hzero => hbytesLeft ⟨?_, hzero⟩
        exact Nat.ne_of_gt (hbytes.2 h)
  expire code description p hp := by
    obtain ⟨hbatch, hbytes, hg⟩ := hp
    -- the status that ends a pull carries all that is left of it
    refine ⟨?_, .inr ⟨hbatch, hbytes⟩, fun g' h => Option.some.inj h ▸ hg⟩
    cases k <;> simp [Inbound.generation, Inbound.count, HeldPull.count]
  status code description g' := by
    cases k <;> simp [Inbound.count]
  heartbeat := ⟨by simp [Inbound.generation], trivial, nofun⟩

namespace PullConsumerMessages

/-- `consume(opts)`. -/
def consume (opts : PullConsumerOptions) (callback bind abortOnMissingResource : Bool) :
    Except String PullConsumerMessages :=
  new opts true callback bind abortOnMissingResource

/-- There is room for another pull. -/
def Room (c : PullConsumerMessages) : Prop :=
  c.pending.msgs < c.opts.maxMessages ∧ (c.opts.maxBytes ≠ 0 → c.pending.bytes < c.opts.maxBytes)

instance (c : PullConsumerMessages) : Decidable c.Room := inferInstanceAs (Decidable (_ ∧ (_ → _)))

/-- A status that stops the messages of `consume`. -/
def stopsOn (c : PullConsumerMessages) (code : Nat) (description : String) : Bool :=
  code = 400 ||
    (c.abortOnMissingResource && (code = 409 && description = "consumer deleted" || code = 503))

/-- What arrives belongs to a pull behind the last reset; a status without counts leads to no pull
where there is no room for one. -/
def Fits (c : PullConsumerMessages) : Inbound → Prop
  | .heartbeat => True
  | .message _ g => g = c.generation
  | .status code description msgsLeft bytesLeft g =>
      if 0 < msgsLeft ∨ 0 < bytesLeft then g = c.generation
      else c.stopsOn code description = false → c.refills = true → c.Room

instance decidableFits (c : PullConsumerMessages) : (i : Inbound) → Decidable (c.Fits i)
  | .heartbeat => inferInstanceAs (Decidable True)
  | .message _ g => inferInstanceAs (Decidable (g = c.generation))
  | .status code description msgsLeft bytesLeft g =>
      inferInstanceAs (Decidable (if 0 < msgsLeft ∨ 0 < bytesLeft then g = c.generation
        else c.stopsOn code description = false → c.refills = true → c.Room))

/-- The condition on a step. -/
def ArrivalFits (c : PullConsumerMessages) : PullMessagesEvent → Prop
  | .receive _ => c.stopping = true ∨ ∀ i ∈ c.wire.head?, c.Fits i
  | .answer .. | .expire .. | .forget _ | .status .. | .heartbeat | .lose
      _ | .heartbeatsMissed | .reconnect
  | .info _ | .delayed _ | .next | .close | .drained | .rejected _ => True

instance decidableArrivalFits (c : PullConsumerMessages) :
    (e : PullMessagesEvent) → Decidable (c.ArrivalFits e)
  | .receive _ => inferInstanceAs (Decidable (c.stopping = true ∨ ∀ i ∈ c.wire.head?, c.Fits i))
  | .answer .. | .expire .. | .forget _ | .status .. | .heartbeat | .lose
      _ | .heartbeatsMissed | .reconnect
  | .info _ | .delayed _ | .next | .close | .drained | .rejected _ =>
      inferInstanceAs (Decidable True)

/-- What is still to come of the pulls behind the last reset is pending. -/
structure Accounted (c : PullConsumerMessages) : Prop where
  consumes : c.refilling = true
  positive : 0 < c.opts.maxMessages
  within : ∀ k, ∃ n b, Within (sinceReset c.opts k c.generation) n b c ∧
    (b : Int) ≤ c.pending.count k
  limit : ∀ k, c.pending.count k ≤ c.opts.limit k

section

variable {c c' : PullConsumerMessages}

/-- **The counts of such a state are in range**, and so are the requests. -/
theorem Accounted.inRange (h : Accounted c) : c.InRange := by
  obtain ⟨_, bm, hm, hmsgs⟩ := h.within .msgs
  obtain ⟨_, bb, hb, hbytes⟩ := h.within .bytes
  refine ⟨⟨?_, h.limit .msgs⟩, ⟨?_, h.limit .bytes⟩, fun p hp => (hm.sent p hp).1⟩
  · exact Int.le_trans (Int.natCast_nonneg bm) hmsgs
  · exact Int.le_trans (Int.natCast_nonneg bb) hbytes

theorem Accounted.of (h : Accounted c) (hrefilling : c'.refilling = c.refilling)
    (hopts : c'.opts = c.opts) (hpending : ∀ k, c'.pending.count k = c.pending.count k)
    (hgeneration : c'.generation = c.generation)
    (hwithin : ∀ k n b, Within (sinceReset c.opts k c.generation) n b c →
      Within (sinceReset c.opts k c.generation) n b c') : Accounted c' := by
  refine ⟨hrefilling.trans h.consumes, hopts ▸ h.positive, fun k => ?_, fun k => ?_⟩
  · obtain ⟨n, b, hb, hle⟩ := h.within k
    rw [hopts, hgeneration, hpending]
    exact ⟨n, b, hwithin k n b hb, hle⟩
  · rw [hopts, hpending]
    exact h.limit k

theorem Accounted.of_frame (h : Accounted c) (hframe : Frame c c')
    (hwithin : ∀ {M n b}, Within M n b c → Within M n b c') : Accounted c' :=
  h.of hframe.refilling hframe.opts (fun k => congrArg (Pending.count · k) hframe.pending)
    hframe.generation fun _ _ _ => hwithin

theorem Accounted.stop (h : Accounted c) (err : Option String) : Accounted (c.stop err) :=
  h.of_frame (frame_stop err) fun hb => hb.stop err

theorem Accounted.other (h : Accounted c)
    (heq : (c'.qi, c'.delivered, c'.sent, c'.held, c'.wire) = (c.qi, c.delivered, c.sent,
      c.held, c.wire))
    (hrefilling : c'.refilling = c.refilling) (hopts : c'.opts = c.opts)
    (hpending : ∀ k, c'.pending.count k = c.pending.count k)
    (hgeneration : c'.generation = c.generation) : Accounted c' :=
  h.of hrefilling hopts hpending hgeneration fun _ _ _ hb => hb.other heq

/-! ## Another pull -/

/-- Where there is room, what is pulled is in range. -/
theorem Accounted.pullOptions (h : Accounted c) (hroom : c.Room) (k : Count) :
    (sinceReset c.opts k c.generation).requestOk c.pullOptions := by
  obtain ⟨⟨hmsgs, -⟩, ⟨hbytes, hbytes'⟩, -⟩ := h.inRange
  obtain ⟨hroom, hroom'⟩ := hroom
  refine ⟨⟨⟨?_, ?_⟩, fun hlimited => ⟨?_, ?_⟩⟩, fun hunlimited => ?_, Nat.le_refl _⟩
  · exact Int.sub_pos_of_lt hroom
  · exact Int.sub_le_self _ hmsgs
  · exact Int.sub_pos_of_lt (hroom' hlimited)
  · exact Int.sub_le_self _ hbytes
  · show (c.opts.maxBytes : Int) - c.pending.bytes = 0
    omega

/-- It asks for what is missing to the limit. -/
theorem Accounted.request_pullOptions (h : Accounted c) (k : Count) :
    ((sinceReset c.opts k c.generation).request c.pullOptions : Int) =
      c.opts.limit k - c.pending.count k := by
  have hrequest : (sinceReset c.opts k c.generation).request c.pullOptions =
      c.pullOptions.count k :=
    if_pos rfl
  have hle := h.limit k
  rw [hrequest]
  cases k with
  | msgs => exact Int.toNat_of_nonneg (Int.sub_nonneg_of_le hle)
  | bytes => exact Int.toNat_of_nonneg (Int.sub_nonneg_of_le hle)

/-- **Another pull** fills the counts up to their limits. -/
theorem Accounted.pull (h : Accounted c) (hroom : c.Room) : Accounted (c.pull c.pullOptions) := by
  have hframe := frame_pull (c := c) c.pullOptions
  have hcount : ∀ k, (c.pull c.pullOptions).pending.count k = c.opts.limit k := by
    intro k
    rw [hframe.pending]
    cases k with
    | msgs => exact add_sub_cancel c.pending.msgs _
    | bytes => exact add_sub_cancel c.pending.bytes _
  refine ⟨hframe.refilling.trans h.consumes, hframe.opts ▸ h.positive, fun k => ?_, fun k => ?_⟩
  · obtain ⟨n, b, hb, hle⟩ := h.within k
    have hpull := hb.pull (h.pullOptions hroom k)
    rw [hframe.opts, hframe.generation, hcount]
    refine ⟨n, _, hpull, ?_⟩
    have hrequest := h.request_pullOptions k
    omega
  · rw [hframe.opts, hcount]

/-- The end of the callback. -/
theorem Accounted.settle (h : Accounted c) (hroom : c.refills = true → c.Room) :
    Accounted c.settle := by
  obtain ⟨n, hn⟩ := c.atRest_eq
  have hrest : Accounted { c with pending := { c.pending with requests := n } } :=
    h.other rfl rfl rfl (fun k => by cases k <;> rfl) rfl
  rw [settle_eq, if_pos h.consumes, hn]
  split
  · rename_i hrefills
    exact hrest.pull (hroom hrefills)
  · exact hrest

/-! ## What arrives -/

theorem processStatus_of_stopsOn {code : Nat} {description : String}
    (hs : c.stopsOn code description = true) :
    ∃ err, c.processStatus code description = c.stop err := by
  rw [processStatus]
  simp only [stopsOn, Bool.or_eq_true, Bool.and_eq_true, decide_eq_true_eq] at hs
  by_cases hbad : code = 400
  · exact ⟨_, if_pos hbad⟩
  · obtain ⟨habort, hcode⟩ := hs.resolve_left hbad
    have hmissing : (!c.refilling || c.abortOnMissingResource) = true := by simp [habort]
    rw [if_neg hbad]
    rcases hcode with hdeleted | hnone
    · rw [if_pos hdeleted, if_pos hmissing]
      exact ⟨_, rfl⟩
    · have hother : ¬ (code = 409 ∧ description = "consumer deleted") := by omega
      rw [if_neg hother, if_pos hnone, if_pos hmissing]
      exact ⟨_, rfl⟩

theorem processStatus_of_not_stopsOn (h : c.refilling = true) {code : Nat} {description : String}
    (hs : c.stopsOn code description = false) : c.processStatus code description = c.settle := by
  rw [processStatus]
  simp only [stopsOn, Bool.or_eq_false_iff, Bool.and_eq_false_iff, decide_eq_false_iff_not] at hs
  obtain ⟨hbad, habort⟩ := hs
  rw [if_neg hbad]
  by_cases hmissing : c.abortOnMissingResource = true
  · obtain ⟨hdeleted, hnone⟩ := habort.resolve_left (by simp [hmissing])
    have hother : ¬ (code = 409 ∧ description = "consumer deleted") :=
      not_and_of_not_or_not hdeleted
    rw [if_neg hother, if_neg hnone]
  · have hgoes : ¬ (!c.refilling || c.abortOnMissingResource) = true := by simp [h, hmissing]
    simp only [if_neg hgoes, ite_self]

/-- What arrives was pending. -/
theorem Accounted.le_pending {i : Inbound} {rest : List Inbound} (h : Accounted c)
    (hw : c.wire = i :: rest) (k : Count) :
    ((sinceReset c.opts k c.generation).inbound i : Int) ≤ c.pending.count k := by
  obtain ⟨n, b, hb, hle⟩ := h.within k
  obtain ⟨-, hweight, -⟩ := hb.arrive hw
  omega

/-- **Something arrives, and is taken off.** -/
theorem Accounted.take {i : Inbound} {rest : List Inbound} (h : Accounted c)
    (hw : c.wire = i :: rest) (hrefilling : c'.refilling = c.refilling) (hopts : c'.opts = c.opts)
    (hgeneration : c'.generation = c.generation)
    (hcount : ∀ k, c'.pending.count k =
      c.pending.count k - (sinceReset c.opts k c.generation).inbound i)
    (hwithin : ∀ {M n b}, Within M n b { c with wire := rest } → ∃ n, Within M n b c') :
    Accounted c' := by
  refine ⟨hrefilling.trans h.consumes, hopts ▸ h.positive, fun k => ?_, fun k => ?_⟩
  · obtain ⟨n, b, hb, hle⟩ := h.within k
    obtain ⟨-, hweight, hrest⟩ := hb.arrive hw
    obtain ⟨n', hn'⟩ := hwithin hrest
    rw [hopts, hgeneration, hcount]
    exact ⟨n', _, hn', by omega⟩
  · have hle := h.limit k
    rw [hopts, hcount]
    omega

/-- Something arrives behind the end, or a heartbeat. -/
theorem Accounted.ignore {i : Inbound} {rest : List Inbound} (h : Accounted c)
    (hw : c.wire = i :: rest) : Accounted { c with wire := rest } := by
  refine h.of rfl rfl (fun _ => rfl) rfl fun k n b hb => ?_
  obtain ⟨-, -, hrest⟩ := hb.arrive hw
  exact hrest.mono (Nat.sub_le ..)

/-- What comes of the pulls behind the last reset. -/
theorem inbound_of_generation {opts : PullConsumerOptions} {k : Count} {g : Nat} {i : Inbound}
    (h : i.generation = some g) : (sinceReset opts k g).inbound i = i.count opts k :=
  if_pos h

/-- A message of a pull behind the last reset. -/
theorem Accounted.message {size : Nat} {rest : List Inbound} (h : Accounted c)
    (hw : c.wire = .message size c.generation :: rest) (stops : Option (Option String)) :
    Accounted (process { c with wire := rest } (.message size c.generation) stops) := by
  let c₁ := pushMsg { c with wire := rest } size stops
  have hframe : Frame { c with wire := rest } c₁ := frame_pushMsg size stops
  have hsize : 0 < size := by
    obtain ⟨_, _, hb, -⟩ := h.within .msgs
    exact (hb.arrive hw).1.1
  -- the message counts for what is pending, so that nothing gets below zero
  have hmsgs : (1 : Int) ≤ c.pending.msgs := by
    have hle := h.le_pending hw .msgs
    rw [inbound_of_generation rfl] at hle
    exact hle
  have hbytes : c.opts.maxBytes ≠ 0 → (size : Int) ≤ c.pending.bytes := by
    intro hlimited
    have hle := h.le_pending hw .bytes
    rw [inbound_of_generation rfl, Inbound.count, if_neg hlimited] at hle
    exact hle
  obtain ⟨-, ⟨hbytes₀, hbytes₁⟩, -⟩ := h.inRange
  have hlimit : c.pending.msgs ≤ c.opts.maxMessages := h.limit .msgs
  -- the counts as the source leaves them, which subtracts only where they are not `0`
  let c₂ : PullConsumerMessages :=
    { c₁ with
      received := c₁.received + 1
      pending :=
        { c₁.pending with
          msgs := if c₁.pending.msgs ≠ 0 then c₁.pending.msgs - 1 else c₁.pending.msgs
          bytes := if c₁.pending.bytes ≠ 0 then c₁.pending.bytes - size else c₁.pending.bytes } }
  have hpending : c₁.pending = c.pending := hframe.pending
  have hmsgs' : c₂.pending.msgs = c.pending.msgs - 1 := by
    show (if c₁.pending.msgs ≠ 0 then c₁.pending.msgs - 1 else c₁.pending.msgs) = _
    rw [hpending, if_pos (by omega)]
  have hbytes' : c₂.pending.bytes =
      c.pending.bytes - (if c.opts.maxBytes = 0 then 0 else size : Nat) := by
    show (if c₁.pending.bytes ≠ 0 then c₁.pending.bytes - size else c₁.pending.bytes) = _
    rw [hpending]
    by_cases hlimited : c.opts.maxBytes = 0
    · rw [if_pos hlimited, if_neg (by omega)]
      exact (Int.sub_zero _).symm
    · have hle := hbytes hlimited
      rw [if_neg hlimited, if_pos (by omega)]
  have hc₂ : Accounted c₂ := by
    refine h.take hw hframe.refilling hframe.opts hframe.generation
      (fun k => ?_) fun {M n b} hb => ?_
    · rw [inbound_of_generation rfl]
      cases k with
      | msgs => exact hmsgs'
      | bytes => exact hbytes'
    · exact ⟨n + 1, (hb.pushMsg size stops).other rfl⟩
  -- the next pull asks for what is missing to the limits
  refine hc₂.settle fun _ => ⟨?_, fun hlimited => ?_⟩
  · rw [hmsgs', show c₂.opts = c.opts from hframe.opts]
    omega
  · rw [show c₂.opts = c.opts from hframe.opts] at hlimited ⊢
    have hle := hbytes hlimited
    rw [hbytes', if_neg hlimited]
    omega

/-- A status with the counts of a pull behind the last reset. -/
theorem Accounted.discard {code msgsLeft bytesLeft : Nat} {description : String}
    {rest : List Inbound} (h : Accounted c)
    (hw : c.wire = .status code description msgsLeft bytesLeft c.generation :: rest)
    (hcounts : 0 < msgsLeft ∨ 0 < bytesLeft) :
    Accounted (PullConsumerMessages.settle { c with
      wire := rest
      pending :=
        ⟨c.pending.msgs - msgsLeft, c.pending.bytes - bytesLeft, c.pending.requests - 1⟩ }) := by
  have hsound : (Inbound.status code description msgsLeft bytesLeft c.generation).Sound c.opts := by
    obtain ⟨_, _, hb, -⟩ := h.within .msgs
    exact (hb.arrive hw).1.1
  obtain ⟨hpos, hbytes⟩ : 0 < msgsLeft ∧ (0 < bytesLeft ↔ c.opts.maxBytes ≠ 0) :=
    hsound.resolve_left fun hzero => by omega
  have hmsgs₁ : c.pending.msgs ≤ c.opts.maxMessages := h.limit .msgs
  have hbytes₁ : c.pending.bytes ≤ c.opts.maxBytes := h.limit .bytes
  have htaken : Accounted { c with
      wire := rest
      pending :=
        ⟨c.pending.msgs - msgsLeft, c.pending.bytes - bytesLeft, c.pending.requests - 1⟩ } := by
    refine h.take hw rfl rfl rfl (fun k => ?_) fun {M n b} hb => ⟨n, hb.other rfl⟩
    rw [inbound_of_generation rfl]
    cases k <;> rfl
  refine htaken.settle fun _ => ⟨?_, fun hlimited => ?_⟩
  · show c.pending.msgs - msgsLeft < c.opts.maxMessages
    omega
  · have hleft := hbytes.2 hlimited
    show c.pending.bytes - bytesLeft < c.opts.maxBytes
    omega

/-- **Something arrives.** -/
theorem Accounted.receive {i : Inbound} {rest : List Inbound} (h : Accounted c)
    (hw : c.wire = i :: rest) (hfits : c.Fits i) (stops : Option (Option String)) :
    Accounted (process { c with wire := rest } i stops) := by
  have hignored : Accounted { c with wire := rest } := h.ignore hw
  cases i with
  | heartbeat => exact hignored
  | message size g =>
      cases hfits
      exact h.message hw stops
  | status code description msgsLeft bytesLeft g =>
      by_cases hcounts : 0 < msgsLeft ∨ 0 < bytesLeft
      · have hg : g = c.generation := by
          rw [Fits, if_pos hcounts] at hfits
          exact hfits
        subst hg
        rw [process, if_pos hcounts]
        exact h.discard hw hcounts
      · rw [Fits, if_neg hcounts] at hfits
        rw [process, if_neg hcounts]
        cases hstops : c.stopsOn code description with
        | true =>
            obtain ⟨err, herr⟩ := processStatus_of_stopsOn (c := { c with wire := rest }) hstops
            rw [herr]
            exact hignored.stop err
        | false =>
            rw [processStatus_of_not_stopsOn hignored.consumes hstops]
            exact hignored.settle (hfits hstops)

/-- **A reset** starts over: nothing is to come behind it but the new pull. -/
theorem Accounted.repull (h : Accounted c) : Accounted c.repull := by
  let c₁ : PullConsumerMessages := { c with pending := ⟨0, 0, 0⟩, generation := c.generation + 1 }
  have hc₁ : Accounted c₁ := by
    refine ⟨h.consumes, h.positive, fun k => ?_, fun k => ?_⟩
    · obtain ⟨n, b, hb, -⟩ := h.within k
      have hnone : Within (sinceReset c.opts k (c.generation + 1)) n 0 c := by
        refine hb.change (fun p hp => ?_) (fun p hp => ?_) fun i hi => ?_
        · obtain ⟨hrange, hunlimited, hg⟩ := hp
          exact ⟨⟨hrange, hunlimited, Nat.le_succ_of_le hg⟩,
            if_neg (Nat.ne_of_lt (Nat.lt_succ_of_le hg))⟩
        · obtain ⟨hpos, hlimited, hg⟩ := hp
          exact ⟨⟨hpos, hlimited, Nat.le_succ_of_le hg⟩,
            if_neg (Nat.ne_of_lt (Nat.lt_succ_of_le hg))⟩
        · obtain ⟨hsound, hg⟩ := hi
          refine ⟨⟨hsound, fun g' h' => Nat.le_succ_of_le (hg g' h')⟩, if_neg fun h' => ?_⟩
          exact absurd (hg _ h') (Nat.not_succ_le_self _)
      exact ⟨n, 0, hnone.other rfl, by cases k <;> exact Int.le_refl 0⟩
    · cases k <;> exact Int.natCast_nonneg _
  refine hc₁.pull ⟨?_, fun hlimited => ?_⟩
  · exact Int.natCast_pos.2 h.positive
  · exact Int.natCast_pos.2 (Nat.pos_of_ne_zero hlimited)

/-- **One event.** -/
theorem Accounted.step {e : PullMessagesEvent} (h : Accounted c) (hok : c.ArrivalFits e)
    (hs : c.step e = some c') : Accounted c' := by
  rcases step_cases hs with ⟨stops, i, rest, rfl, hw, rfl⟩ | ⟨-, resets, inBackOff, rfl⟩ | hquiet
  · split
    · exact h.ignore hw
    · rename_i hopen
      have hfits : c.Fits i := (hok.resolve_left hopen) i (by rw [hw]; rfl)
      exact h.receive hw hfits stops
  · have hreset : Accounted { c with resets := resets, inBackOff := inBackOff } :=
      h.other rfl rfl rfl (fun _ => rfl) rfl
    exact hreset.repull
  · have hframe := hquiet.frame
    refine h.of hframe.refilling hframe.opts (fun k => congrArg (Pending.count · k) hframe.pending)
      hframe.generation fun k _ _ hb => hquiet.within (fun code description => ?_) hb
    -- a status without counts is in order
    exact ⟨.inl ⟨rfl, rfl⟩, fun g' hg => Nat.le_of_eq (Option.some.inj hg).symm⟩

/-- The first pull. -/
theorem accounted_consume {opts : PullConsumerOptions} {callback bind abortOnMissingResource : Bool}
    (h : consume opts callback bind abortOnMissingResource = .ok c) : Accounted c := by
  obtain ⟨c₀, rfl, hparse, hrefilling, hpending, -, -, hgeneration, hwithin⟩ := new_eq h
  have hpositive : 0 < c₀.opts.maxMessages := by
    rw [(parseOptions_eq hparse).1]
    split <;> omega
  have hzero : ∀ k, c₀.pending.count k = 0 := by
    intro k
    rw [hpending]
    cases k <;> rfl
  have hc₀ : Accounted c₀ := by
    refine ⟨hrefilling, hpositive, fun k => ⟨0, 0, hwithin _, ?_⟩, fun k => ?_⟩
    · rw [hzero]
      exact Int.le_refl 0
    · rw [hzero]
      exact Int.natCast_nonneg _
  refine hc₀.pull ⟨?_, fun hlimited => ?_⟩
  · rw [hpending]
    exact Int.natCast_pos.2 hpositive
  · rw [hpending]
    exact Int.natCast_pos.2 (Nat.pos_of_ne_zero hlimited)

end

/-- **The counts and the requests of `consume` stay in range**, in every run in which what arrives
belongs to the pulls behind the last reset, and a status without counts leads to no pull without
room. -/
theorem consume_in_range (opts : PullConsumerOptions) (callback bind abortOnMissingResource : Bool)
    (c₀ c : PullConsumerMessages) (events : List PullMessagesEvent)
    (h : consume opts callback bind abortOnMissingResource = .ok c₀)
    (hrun : run step c₀ events = some c) (hok : Meets step ArrivalFits c₀ events) : c.InRange :=
  (invariant_run_of_meets (fun _ _ _ hc he hs => hc.step he hs) hrun hok
    (accounted_consume h)).inRange

/-- `consume` with ten messages at most. -/
def consumesTen : PullConsumerOptions := ⟨10, 0, 0, 0, 0, 0⟩

/-- The connection comes back, and the server forgets the first pull; a message arrives, and the
second pull ends. -/
def forgottenPull : List PullMessagesEvent :=
  [.reconnect, .forget 0, .answer 0 1, .receive none, .expire 0 408 "request timeout",
    .receive none]

theorem consume_in_range_forgottenPull :
    ∃ c₀ c, consume consumesTen true true false = .ok c₀ ∧ run step c₀ forgottenPull = some c ∧
      c.sent.map PullRequest.batch = [10, 10, 10] ∧ c.InRange := by
  obtain ⟨c₀, h, hends, hok⟩ : ∃ c₀, consume consumesTen true true false = .ok c₀ ∧
      (run step c₀ forgottenPull).any (fun c => c.sent.map PullRequest.batch = [10, 10, 10]) =
        true ∧ Meets step ArrivalFits c₀ forgottenPull :=
    ⟨_, rfl, by decide +kernel, by decide +kernel⟩
  obtain ⟨c, hrun, hsent⟩ := (Option.any_eq_true _ _).1 hends
  exact ⟨c₀, c, h, hrun, of_decide_eq_true hsent,
    consume_in_range consumesTen true true false c₀ c _ h hrun hok⟩

/-- The connection comes back; a message of the second pull arrives, and then the end of the
first. -/
def stalePull : List PullMessagesEvent :=
  [.reconnect, .answer 1 1, .receive none, .expire 0 408 "request timeout", .receive none]

/-- **`consume` asks for more than `max_messages`**: the end of a pull from before the reset is
taken off what is pending of the new one, and the next pull asks for eleven of ten messages. -/
theorem consume_asks_for_too_many :
    ∃ c₀ c, consume consumesTen true true false = .ok c₀ ∧ run step c₀ stalePull = some c ∧
      (∃ p ∈ c.sent, p.batch = 11) ∧ ¬ c.InRange := by
  obtain ⟨c₀, h, hends⟩ : ∃ c₀, consume consumesTen true true false = .ok c₀ ∧
      (run step c₀ stalePull).any (fun c => (∃ p ∈ c.sent, p.batch = 11) ∧ ¬ c.InRange) = true :=
    ⟨_, rfl, by decide +kernel⟩
  obtain ⟨c, hrun, hsent⟩ := (Option.any_eq_true _ _).1 hends
  exact ⟨c₀, c, h, hrun, of_decide_eq_true hsent⟩

end PullConsumerMessages

end NatsClient.JetStream
