import NatsClient.JetStream.PullMeasure

/-!
# How many messages a fetch hands over

`PullConsumerImpl.fetch` runs the machinery of `consume` with `refilling` off: it makes one pull,
for `max_messages` messages. But `resetPending`, behind missed heartbeats and behind a reconnect,
makes a new pull for all of `max_messages` again, whatever has arrived by then, and nothing counts
what the user was handed (`fetch_hands_more_than_max_messages`).

As long as such a pull is made only while nothing of the earlier one has arrived or is still to
come, what was received and what is still to come amount to `max_messages` at most
(`FetchInv.step`), and so does what the user is handed (`fetch_hands_at_most_max_messages`).
-/

set_option autoImplicit false

namespace NatsClient.JetStream

open NatsClient.Foundation NatsClient.Iterator

/-- The messages that may still come of a pull. -/
def messagesToCome : Measure where
  request p := p.batch.toNat
  held p := p.batch
  inbound
    | .message _ _ => 1
    | .heartbeat | .status .. => 0
  requestOk _ := True
  heldOk p := 0 < p.batch
  inboundOk _ := True
  publish p _ hp := ⟨Int.pos_iff_toNat_pos.1 hp, Nat.le_refl _⟩
  answer p size hp _ _ := by
    refine ⟨Nat.le_of_eq (Nat.sub_add_cancel hp), trivial, ?_⟩
    intro hspent
    exact Nat.pos_of_ne_zero fun h => hspent (.inl h)
  expire _ _ _ _ := ⟨Nat.zero_le _, trivial⟩
  status _ _ _ := rfl
  heartbeat := ⟨rfl, trivial⟩

namespace PullConsumerMessages

/-- `fetch(opts)`. -/
def fetch (opts : PullConsumerOptions) (callback bind abortOnMissingResource : Bool) :
    Except String PullConsumerMessages :=
  new opts false callback bind abortOnMissingResource

/-- It pulls again only where nothing of the earlier pull has arrived or is still to come. -/
def PullsAfresh (c : PullConsumerMessages) (e : PullMessagesEvent) : Prop :=
  c.pullsAgain e = true → c.stopping = true ∨ c.received + c.load messagesToCome = 0

instance (c : PullConsumerMessages) (e : PullMessagesEvent) : Decidable (PullsAfresh c e) :=
  inferInstanceAs (Decidable (_ → _))

/-- What was received, and what is still to come as long as the subscription is there, amount to
`m` at most. -/
structure FetchInv (m : Nat) (c : PullConsumerMessages) : Prop where
  fetches : c.refilling = false
  max : c.opts.maxMessages = m
  received : c.received ≤ m
  within : ∃ b, Within messagesToCome c.received b c ∧ (c.stopping = false → c.received + b ≤ m)

section

variable {m : Nat} {c c' : PullConsumerMessages}

theorem FetchInv.of (h : FetchInv m c) (hrefilling : c'.refilling = c.refilling)
    (hopts : c'.opts = c.opts) (hreceived : c'.received = c.received)
    (hstopping : c.stopping = true → c'.stopping = true)
    (hwithin : ∀ n b, Within messagesToCome n b c → Within messagesToCome n b c') :
    FetchInv m c' := by
  obtain ⟨b, hb, hroom⟩ := h.within
  refine ⟨hrefilling.trans h.fetches, hopts ▸ h.max, hreceived ▸ h.received, b, ?_, ?_⟩
  · rw [hreceived]
    exact hwithin _ _ hb
  · intro hopen
    rw [hreceived]
    refine hroom (Bool.eq_false_iff.2 fun hs => ?_)
    rw [hstopping hs] at hopen
    cases hopen

theorem FetchInv.of_frame (h : FetchInv m c) (hframe : Frame c c')
    (hwithin : ∀ n b, Within messagesToCome n b c → Within messagesToCome n b c') : FetchInv m c' :=
  h.of hframe.refilling hframe.opts hframe.received hframe.stopping hwithin

theorem FetchInv.stop (h : FetchInv m c) (err : Option String) : FetchInv m (c.stop err) :=
  h.of_frame (frame_stop err) fun _ _ hb => hb.stop err

theorem FetchInv.pushStop (h : FetchInv m c) : FetchInv m (c.pushFn .stop) :=
  h.of_frame (frame_pushFn .stop) fun _ _ hb => hb.pushFn (f := .stop) (fun p hp => by cases hp)

theorem FetchInv.count (h : FetchInv m c) (p : Pending) : FetchInv m { c with pending := p } :=
  h.of rfl rfl rfl id fun _ _ hb => hb.other rfl

/-- At the end of the callback a fetch is stopped, or nothing happens. -/
theorem FetchInv.settle (h : FetchInv m c) : FetchInv m c.settle := by
  obtain ⟨p, hp | hp⟩ := settle_of_fetch h.fetches
  · exact hp ▸ h.count p
  · exact hp ▸ (h.count p).pushStop

theorem FetchInv.processStatus (h : FetchInv m c) (code : Nat) (description : String) :
    FetchInv m (c.processStatus code description) := by
  unfold PullConsumerMessages.processStatus
  split
  · exact h.stop _
  · split
    · split
      · exact h.stop _
      · exact h.settle
    · split
      · split
        · exact h.stop _
        · exact h.settle
      · exact h.settle

/-- A message is received: it was still to come. -/
theorem FetchInv.message {size : Nat} {b : Nat} (h : FetchInv m c)
    (hb : Within messagesToCome c.received b c) (hroom : c.received + 1 + b ≤ m)
    (stops : Option (Option String)) (p : Pending) :
    FetchInv m { c.pushMsg size stops with
      pending := p, received := (c.pushMsg size stops).received + 1 } := by
  have hframe := frame_pushMsg (c := c) size stops
  have hreceived : (c.pushMsg size stops).received + 1 = c.received + 1 :=
    congrArg (· + 1) hframe.received
  have hpush : Within messagesToCome ((c.pushMsg size stops).received + 1) b
      (c.pushMsg size stops) :=
    hreceived ▸ hb.pushMsg size stops
  refine ⟨hframe.refilling.trans h.fetches, hframe.opts ▸ h.max, ?_, b, hpush.other rfl, ?_⟩
  · show (c.pushMsg size stops).received + 1 ≤ m
    omega
  · intro _
    show (c.pushMsg size stops).received + 1 + b ≤ m
    omega

/-- Something arrives. -/
theorem FetchInv.receive {i : Inbound} {rest : List Inbound} (h : FetchInv m c)
    (hw : c.wire = i :: rest) (stops : Option (Option String)) :
    FetchInv m
      (if ({ c with wire := rest } : PullConsumerMessages).stopping then { c with wire := rest }
      else process { c with wire := rest } i stops) := by
  obtain ⟨b, hb, hroom⟩ := h.within
  obtain ⟨-, hle, hrest⟩ := hb.arrive hw
  have hinv : FetchInv m { c with wire := rest } := by
    refine ⟨h.fetches, h.max, h.received, _, hrest, fun hopen => ?_⟩
    exact Nat.le_trans (Nat.add_le_add_left (Nat.sub_le _ _) _) (hroom hopen)
  split
  · exact hinv
  · rename_i hopen
    cases i with
    | heartbeat => exact hinv
    | status code description msgsLeft bytesLeft generation =>
        show FetchInv m (if 0 < msgsLeft ∨ 0 < bytesLeft then _ else _)
        split
        · exact (hinv.count _).settle
        · exact hinv.processStatus code description
    | message size generation =>
        have hone : 1 ≤ b := hle
        have hroom := hroom (Bool.eq_false_iff.2 hopen)
        have hrest : Within messagesToCome c.received (b - 1) { c with wire := rest } := hrest
        refine (hinv.message hrest ?_ stops _).settle
        show c.received + 1 + (b - 1) ≤ m
        omega

/-- A new pull, for `max_messages` again. -/
theorem FetchInv.repull (h : FetchInv m c)
    (hok : c.stopping = true ∨ c.received + c.load messagesToCome = 0) : FetchInv m c.repull := by
  obtain ⟨b, hb, hroom⟩ := h.within
  -- where nothing has arrived or is still to come, the bound may be taken to be `0`
  obtain ⟨b', hb', hroom'⟩ : ∃ b', Within messagesToCome c.received b' c ∧
      (c.stopping = false → c.received + (b' + m) ≤ m) := by
    rcases hok with hstopping | hfresh
    · refine ⟨b, hb, fun hopen => ?_⟩
      rw [hstopping] at hopen
      cases hopen
    · refine ⟨c.load messagesToCome,
        ⟨hb.traced, hb.delivered, hb.queued, hb.sent, hb.held, hb.wire, Nat.le_refl _⟩, fun _ => ?_⟩
      omega
  let c₁ : PullConsumerMessages := { c with pending := ⟨0, 0, 0⟩, generation := c.generation + 1 }
  have hc₁ : Within messagesToCome c.received b' c₁ :=
    hb'.other rfl
  have hbatch : messagesToCome.request c₁.pullOptions = m := by
    show ((c.opts.maxMessages : Int) - 0).toNat = m
    rw [h.max, Int.sub_zero, Int.toNat_natCast]
  have hframe : Frame _ c.repull := frame_pull (c := c₁) c₁.pullOptions
  have hpull : Within messagesToCome c.received (b' + m) c.repull := hbatch ▸ hc₁.pull trivial
  refine ⟨hframe.refilling.trans h.fetches, hframe.opts ▸ h.max, hframe.received ▸ h.received,
    b' + m, ?_, ?_⟩
  · rw [hframe.received]
    exact hpull
  · intro hopen
    rw [hframe.received]
    refine hroom' (Bool.eq_false_iff.2 fun hs => ?_)
    rw [hframe.stopping hs] at hopen
    cases hopen

/-- **One event.** -/
theorem FetchInv.step {e : PullMessagesEvent} (h : FetchInv m c) (hok : PullsAfresh c e)
    (hs : c.step e = some c') : FetchInv m c' := by
  rcases step_cases hs with ⟨stops, i, rest, rfl, hw, rfl⟩ | ⟨hagain, resets, inBackOff,
    rfl⟩ | hquiet
  · exact h.receive hw stops
  · have hreset : FetchInv m { c with resets := resets, inBackOff := inBackOff } :=
      h.of rfl rfl rfl id fun _ _ hb => hb.other rfl
    exact hreset.repull (hok hagain)
  · exact h.of_frame hquiet.frame fun _ _ hb => hquiet.within (fun _ _ => trivial) hb

/-- **The first pull of a fetch.** -/
theorem fetchInv_fetch {opts : PullConsumerOptions} {callback bind abortOnMissingResource : Bool}
    (hpos : 0 < opts.maxMessages) (h : fetch opts callback bind abortOnMissingResource = .ok c) :
    FetchInv opts.maxMessages c := by
  obtain ⟨c₀, rfl, hparse, hrefilling, hpending, hstopping, hreceived, -, hwithin⟩ := new_eq h
  have hmax : c₀.opts.maxMessages = opts.maxMessages := by
    rw [(parseOptions_eq hparse).1, if_neg (Nat.ne_of_gt hpos)]
  have hbatch : messagesToCome.request c₀.pullOptions = opts.maxMessages := by
    show ((c₀.opts.maxMessages : Int) - c₀.pending.msgs).toNat = _
    rw [hpending, hmax, Int.sub_zero, Int.toNat_natCast]
  have hframe : Frame _ (c₀.pull c₀.pullOptions) := frame_pull c₀.pullOptions
  have hreceived' : (c₀.pull c₀.pullOptions).received = 0 := hframe.received.trans hreceived
  have hpull : Within messagesToCome 0 (0 + opts.maxMessages) (c₀.pull c₀.pullOptions) :=
    hbatch ▸ (hwithin messagesToCome).pull trivial
  refine ⟨hframe.refilling.trans hrefilling, hframe.opts ▸ hmax, hreceived' ▸ Nat.zero_le _, _,
    hreceived' ▸ hpull, fun _ => ?_⟩
  rw [hreceived']
  omega

/-- What the user was handed was given to the callback, or to the iterator. -/
theorem Within.handed {M : Measure} {n b : Nat} (h : Within M n b c) : c.handed.length ≤ n := by
  obtain ⟨items, htraced, hitems⟩ := h.traced
  unfold PullConsumerMessages.handed
  split
  · exact h.delivered
  · exact Nat.le_trans htraced.yielded_le.length_le hitems

end

/-- **A fetch hands at most `max_messages` messages to the user**, in every run in which it pulls
again only where nothing of the earlier pull has arrived or is still to come. -/
theorem fetch_hands_at_most_max_messages (opts : PullConsumerOptions)
    (callback bind abortOnMissingResource : Bool) (c₀ c : PullConsumerMessages)
    (events : List PullMessagesEvent) (hpos : 0 < opts.maxMessages)
    (h : fetch opts callback bind abortOnMissingResource = .ok c₀)
    (hrun : run step c₀ events = some c) (hok : Meets step PullsAfresh c₀ events) :
    c.handed.length ≤ opts.maxMessages := by
  have hinv : FetchInv opts.maxMessages c :=
    invariant_run_of_meets (fun _ _ _ hc he hs => hc.step he hs) hrun hok (fetchInv_fetch hpos h)
  obtain ⟨b, hb, -⟩ := hinv.within
  exact Nat.le_trans hb.handed hinv.received

/-- A fetch of two messages. -/
def fetchesTwo : PullConsumerOptions := ⟨2, 0, 0, 0, 0, 0⟩

/-- The connection comes back before anything of the pull has arrived; the second pull brings
two. -/
def reconnectedBefore : List PullMessagesEvent :=
  [.next, .forget 0, .reconnect, .info .found, .next, .answer 0 1, .receive none, .next,
    .answer 0 1, .receive none, .next]

theorem fetch_hands_at_most_max_messages_reconnected :
    ∃ c₀ c, fetch fetchesTwo false false false = .ok c₀ ∧ run step c₀ reconnectedBefore = some c ∧
      c.handed = [1, 1] ∧ c.handed.length ≤ 2 := by
  obtain ⟨c₀, h, hends, hok⟩ : ∃ c₀, fetch fetchesTwo false false false = .ok c₀ ∧
      (run step c₀ reconnectedBefore).any (fun c => c.handed = [1, 1]) = true ∧
        Meets step PullsAfresh c₀ reconnectedBefore :=
    ⟨_, rfl, by decide +kernel, by decide +kernel⟩
  obtain ⟨c, hrun, hhanded⟩ := (Option.any_eq_true _ _).1 hends
  exact ⟨c₀, c, h, hrun, of_decide_eq_true hhanded,
    fetch_hands_at_most_max_messages fetchesTwo false false false c₀ c _ (by decide) h hrun hok⟩

/-- The connection comes back behind the first message; the second pull brings two more. -/
def reconnectedBehind : List PullMessagesEvent :=
  [.next, .answer 0 1, .receive none, .next, .forget 0, .reconnect, .info .found, .next,
    .answer 0 1, .receive none, .next, .answer 0 1, .receive none, .next]

/-- **A fetch hands more than `max_messages` messages to the user**: behind a reconnect it pulls for
both messages again, with one of them delivered. -/
theorem fetch_hands_more_than_max_messages :
    ∃ c₀ c, fetch fetchesTwo false false false = .ok c₀ ∧ run step c₀ reconnectedBehind = some c ∧
      fetchesTwo.maxMessages < c.handed.length := by
  obtain ⟨c₀, h, hends⟩ : ∃ c₀, fetch fetchesTwo false false false = .ok c₀ ∧
      (run step c₀ reconnectedBehind).any (fun c => fetchesTwo.maxMessages < c.handed.length) =
      true :=
    ⟨_, rfl, by decide +kernel⟩
  obtain ⟨c, hrun, hhanded⟩ := (Option.any_eq_true _ _).1 hends
  exact ⟨c₀, c, h, hrun, of_decide_eq_true hhanded⟩

end PullConsumerMessages

end NatsClient.JetStream
