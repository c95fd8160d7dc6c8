import NatsClient.Iterator.Ending
import NatsClient.Kv.Watcher

/-!
# The history of a bucket

Model of `history` (`kv.ts`): all messages are delivered, and behind the last of what was there the
function is pushed that stops the iterator. Other clients may write at any time. The test for the
end reads `fn && count > 0 && received >= count || pending === 0`, so it holds without a function
too, and `undefined` is pushed. Whatever is delivered while the function waits in the queue gets
into its batch and is presented behind it (`enumerates`).
-/

set_option autoImplicit false

namespace NatsClient.Kv.History

open NatsClient.Foundation NatsClient.JetStream NatsClient.Iterator

variable {E : Type}

section

variable (b : Bucket) (headersOnly : Bool)

/-- `history({ key, headers_only })` up to the `await` of `subscribe`. -/
def start (keys : List Text) (stream : Stream) : Except Text (Watcher E) := do
  let filters ← keys.mapM b.filterFor
  return .new stream .All filters true

/-- The callback, on a message with its pending count. -/
def callback (w : Watcher E) (jm : Msg) (pending : Nat) : Watcher E :=
  let w := w.receive (b.entryOf headersOnly jm)
  if (w.fn && 0 < w.count && w.count ≤ w.qi.received) || pending = 0 then
    if w.fn then w.pushFn else w.pushUndefined
  else w

/-- `step` with the callback of `history`, whose function stops the iterator. -/
def step : Watcher E → WatchEvent → Option (Watcher E) :=
  Watcher.step (callback b headersOnly) QueuedIterator.stopping

/-- The entries of some messages, as they are presented. -/
def entries (ms : List Msg) : List (Option KvEntry) :=
  ms.map fun m => some (b.entryOf headersOnly m)

/-- The user waits for what will not come. -/
def Exhausted (w : Watcher E) : Prop :=
  w.feed.pending w.stream = [] ∧ w.subscribed = true ∧
    w.qi.next (fun _ => true) (fun _ => QueuedIterator.stopping) = none

/-- What the iterator is for. -/
structure Enumerates (w : Watcher E) : Prop where
  entry : ∀ v ∈ w.qi.yielded, v.isSome = true
  ordered : (w.qi.yielded.filterMap id).Pairwise fun e e' => e.revision < e'.revision
  complete : Exhausted w → ∀ m ∈ w.initial, some (b.entryOf headersOnly m) ∈ w.qi.yielded
  ends : Exhausted w → w.qi.consumer.isFinished = true
  marked : ∀ n, w.position = some n → w.qi.yielded.length ≤ n

/-- The condition on the steps. Nothing is delivered while the function waits in the queue. What
other clients write takes away no message that was there at the start and waits to be delivered, and
it does not take away the last of the messages that the create response counted. -/
def Undisturbed (w : Watcher E) : WatchEvent → Prop
  | .deliver => functions w.qi.yields = []
  | .created | .subscribed | .next => True
  | .publish p time => Keeps (w.stream.append p time)
  | .remove seq => Keeps (w.stream.remove seq)
  | .purge filter keep => Keeps (w.stream.purge filter keep)
where
  Keeps (stream : Stream) : Prop :=
    (∀ m ∈ w.initial, m ∈ w.delivered ∨ m ∈ w.feed.pending stream) ∧
      ∀ expect ∈ w.last, w.fn = true → w.qi.received < expect → w.feed.pending stream ≠ []

instance (w : Watcher E) (stream : Stream) : Decidable (Undisturbed.Keeps w stream) :=
  inferInstanceAs (Decidable (_ ∧ _))

instance (w : Watcher E) : (e : WatchEvent) → Decidable (Undisturbed w e)
  | .deliver => inferInstanceAs (Decidable (_ = _))
  | .created | .subscribed | .next => isTrue trivial
  | .publish p time => inferInstanceAs (Decidable (Undisturbed.Keeps w (w.stream.append p time)))
  | .remove seq => inferInstanceAs (Decidable (Undisturbed.Keeps w (w.stream.remove seq)))
  | .purge filter keep =>
      inferInstanceAs (Decidable (Undisturbed.Keeps w (w.stream.purge filter keep)))

/-- The items that messages are pushed as. -/
def items (ms : List Msg) : List (Item (Option KvEntry) Unit) :=
  ms.map fun m => .value (some (b.entryOf headersOnly m))

/-- Where the function is. -/
inductive Status (w : Watcher E) : Prop where
  | held (hfn : w.fn = true) (hposition : w.position = none)
      (htraced : w.qi.Traced (fun _ => true) (items b headersOnly w.delivered))
      (hrunning : w.qi.Running) (hidle : w.subscribed = false → w.qi.consumer = .idle ∧ w.count = 0)
      (hsubscribed : w.subscribed = true → w.last = some w.count ∧ w.qi.received < w.count)
  | gone (hfn : w.fn = false) (front rest : List Msg) (hdelivered : w.delivered = front ++ rest)
      (hposition : w.position = some front.length) (hinitial : w.initial <+: front)
      (hends : w.qi.Ends (fun _ => true) (items b headersOnly front))

/-- The invariant. -/
structure Inv (w : Watcher E) : Prop where
  delivered : w.delivered.Pairwise fun m m' => m.seq < m'.seq
  cursor : ∀ m ∈ w.delivered, m.seq ≤ w.feed.cursor
  consumerSeq : w.feed.consumerSeq = w.delivered.length
  received : w.qi.received = w.delivered.length
  initial : w.initial <+: w.delivered ++ w.feed.pending w.stream
  last : ∀ expect ∈ w.last, w.initial.length ≤ expect ∧
    (w.fn = true → w.qi.received < expect → w.feed.pending w.stream ≠ [])
  running : w.qi.consumer.isRunning = false
  status : Status b headersOnly w

end

section

variable {b : Bucket} {headersOnly : Bool} {w w' : Watcher E} {m : Msg}

theorem functions_items (ms : List Msg) : functions (items b headersOnly ms) = [] := by
  induction ms with
  | nil => rfl
  | cons m ms ih => exact ih

theorem accepted_items (ms : List Msg) :
    accepted (fun _ => true) (items b headersOnly ms) = entries b headersOnly ms := by
  induction ms with
  | nil => rfl
  | cons m ms ih => exact congrArg (_ :: ·) ih

theorem items_concat (ms : List Msg) : items b headersOnly (ms ++ [m]) =
    items b headersOnly ms ++ [.value (some (b.entryOf headersOnly m))] :=
  List.map_append ..

theorem inv_start {keys : List Text} {stream : Stream} (h : start b keys stream = .ok w) :
    Inv b headersOnly w := by
  unfold start at h
  cases hfilters : keys.mapM b.filterFor with
  | error message =>
      rw [hfilters] at h
      cases h
  | ok filters =>
      rw [hfilters] at h
      cases h
      refine ⟨.nil, nofun, rfl, rfl, List.prefix_rfl, nofun, rfl, ?_⟩
      exact .held rfl rfl QueuedIterator.traced_new QueuedIterator.running_new (fun _ => ⟨rfl, rfl⟩)
        (fun hsubscribed => by cases hsubscribed)

/-- As many messages as the create response announced hold all that was there at the start. -/
theorem Inv.initial_le {expect : Nat} (h : Inv b headersOnly w) (hlast : w.last = some expect)
    {ms rest : List Msg} (hms : w.delivered ++ w.feed.pending w.stream = ms ++ rest)
    (hle : expect ≤ ms.length) : w.initial <+: ms := by
  refine List.prefix_of_prefix_length_le h.initial (hms ▸ List.prefix_append ..) ?_
  exact Nat.le_trans (h.last expect hlast).1 hle

/-- The consumer before the callback runs. -/
theorem Inv.delivering {rest : List Msg} (h : Inv b headersOnly w)
    (hpending : w.feed.pending w.stream = m :: rest) :
    (w.delivered ++ [m]).Pairwise (fun m m' => m.seq < m'.seq) ∧
      (∀ m' ∈ w.delivered ++ [m], m'.seq ≤ m.seq) ∧
      w.initial <+: (w.delivered ++ [m]) ++ rest ∧
      (w.delivering m).feed.pending w.stream = rest := by
  have hcursor : w.feed.cursor < m.seq :=
    (Feed.mem_pending.1 (hpending ▸ List.mem_cons_self .. : m ∈ w.feed.pending w.stream)).2.1
  have hlt : ∀ m' ∈ w.delivered, m'.seq < m.seq :=
    fun m' hm' => Nat.lt_of_le_of_lt (h.cursor m' hm') hcursor
  refine ⟨?_, ?_, ?_, Feed.pending_deliver hpending⟩
  · refine List.pairwise_append.2 ⟨h.delivered, List.pairwise_singleton _ _,
      fun m' hm' m'' hm'' => ?_⟩
    exact List.mem_singleton.1 hm'' ▸ hlt m' hm'
  · intro m' hm'
    rcases List.mem_append.1 hm' with hm' | hm'
    · exact Nat.le_of_lt (hlt m' hm')
    · exact Nat.le_of_eq (congrArg StoredMsg.seq (List.mem_singleton.1 hm'))
  · have hinitial := h.initial
    rw [hpending] at hinitial
    rw [List.append_assoc]
    exact hinitial

/-- The callback while the function is held. -/
theorem Inv.deliver_held {rest : List Msg} (h : Inv b headersOnly w)
    (hpending : w.feed.pending w.stream = m :: rest) (hfn : w.fn = true)
    (hposition : w.position = none)
    (htraced : w.qi.Traced (fun _ => true) (items b headersOnly w.delivered))
    (hrunning : w.qi.Running) (hidle : w.subscribed = false → w.qi.consumer = .idle ∧ w.count = 0)
    (hsubscribed : w.subscribed = true → w.last = some w.count ∧ w.qi.received < w.count) :
    Inv b headersOnly (callback b headersOnly (w.delivering m) m rest.length) := by
  obtain ⟨hordered, hcursor, hinitial, hrest⟩ := h.delivering hpending
  let w₁ := (w.delivering m).receive (b.entryOf headersOnly m)
  have hreceived : w₁.qi.received = (w.delivered ++ [m]).length := by
    refine (Watcher.received_receive (w := w.delivering m) _).trans ?_
    rw [List.length_append]
    exact congrArg (· + 1) h.received
  have hconsumerSeq : w₁.feed.consumerSeq = (w.delivered ++ [m]).length := by
    rw [List.length_append]
    exact congrArg (· + 1) h.consumerSeq
  have htraced₁ : w₁.qi.Traced (fun _ => true) (items b headersOnly (w.delivered ++ [m])) := by
    rw [items_concat]
    exact Watcher.traced_receive (w := w.delivering m) htraced hrunning.done _
  have hconsumer : w₁.qi.consumer = w.qi.consumer := QueuedIterator.consumer_push w.qi _ _
  have hrunning₁ : w₁.qi.Running := Watcher.running_receive (w := w.delivering m) hrunning _
  show Inv b headersOnly (if (w₁.fn && 0 < w₁.count && w₁.count ≤ w₁.qi.received) || rest.length = 0
    then if w₁.fn then w₁.pushFn else w₁.pushUndefined else w₁)
  split
  · -- the function is pushed behind all that was there at the start
    rename_i hfire
    have hfront : w.initial <+: w.delivered ++ [m] := by
      simp only [Bool.and_eq_true, Bool.or_eq_true, decide_eq_true_eq] at hfire
      rcases hfire with ⟨⟨-, hpos⟩, hle⟩ | hnone
      · have hcalled : w.subscribed = true := by
          cases hsub : w.subscribed with
          | true => rfl
          | false => exact absurd (hidle hsub).2 (Nat.ne_of_gt hpos)
        have hsplit : w.delivered ++ w.feed.pending w.stream = w.delivered ++ [m] ++ rest := by
          rw [hpending, List.append_assoc]
          rfl
        exact h.initial_le (hsubscribed hcalled).1 hsplit (hreceived ▸ hle)
      · rw [List.length_eq_zero_iff.1 hnone, List.append_nil] at hinitial
        exact hinitial
    rw [if_pos (show w₁.fn = true from hfn)]
    refine ⟨hordered, hcursor, hconsumerSeq, ?_, ?_, ?_, ?_, ?_⟩
    · exact (QueuedIterator.received_pushFn _ _).trans hreceived
    · show w.initial <+: (w.delivered ++ [m]) ++ (w.delivering m).feed.pending w.stream
      rw [hrest]
      exact hinitial
    · exact fun expect hlast => ⟨(h.last expect hlast).1, nofun⟩
    · exact ((congrArg _ (QueuedIterator.consumer_pushFn w₁.qi ())).trans
        (congrArg _ hconsumer)).trans h.running
    · refine .gone rfl (w.delivered ++ [m]) [] (List.append_nil _).symm ?_ hfront ?_
      · exact congrArg some hreceived
      · exact htraced₁.ends_pushFn hrunning₁ (functions_items _) ()
  · rename_i hnofire
    have hsome : rest ≠ [] := by
      rintro rfl
      exact hnofire (Bool.or_true _)
    refine ⟨hordered, hcursor, hconsumerSeq, hreceived, ?_, ?_, ?_, ?_⟩
    · show w.initial <+: (w.delivered ++ [m]) ++ (w.delivering m).feed.pending w.stream
      rw [hrest]
      exact hinitial
    · exact fun expect hlast => ⟨(h.last expect hlast).1, fun _ _ => hrest.symm ▸ hsome⟩
    · exact (congrArg _ hconsumer).trans h.running
    · refine .held hfn hposition htraced₁ hrunning₁ ?_ (fun hsub => ⟨(hsubscribed hsub).1, ?_⟩)
      · exact fun hsub => ⟨hconsumer.trans (hidle hsub).1, (hidle hsub).2⟩
      · apply Nat.lt_of_not_le
        intro hle
        apply hnofire
        have hpos : 0 < w₁.count := Nat.lt_of_le_of_lt (Nat.zero_le _) (hsubscribed hsub).2
        have hfn₁ : w₁.fn = true := hfn
        simp [hfn₁, hpos, hle]

/-- The callback once the function is gone: what is pushed now is not presented. -/
theorem Inv.deliver_gone {front later rest : List Msg} (h : Inv b headersOnly w)
    (hpending : w.feed.pending w.stream = m :: rest) (hfn : w.fn = false)
    (hdelivered : w.delivered = front ++ later) (hposition : w.position = some front.length)
    (hfront : w.initial <+: front) (hends : w.qi.Ends (fun _ => true) (items b headersOnly front))
    (hyields : functions w.qi.yields = []) :
    Inv b headersOnly (callback b headersOnly (w.delivering m) m rest.length) := by
  obtain ⟨hordered, hcursor, hinitial, hrest⟩ := h.delivering hpending
  let e := b.entryOf headersOnly m
  let qi := w.qi.push (some e) ⟨true, false⟩
  let qi₁ := { qi with received := qi.received + 1 }
  have hreceived : qi₁.received = (w.delivered ++ [m]).length := by
    refine (Watcher.received_receive (w := w.delivering m) e).trans ?_
    rw [List.length_append]
    exact congrArg (· + 1) h.received
  have hconsumer : qi₁.consumer = w.qi.consumer := QueuedIterator.consumer_push w.qi _ _
  have hends₁ : qi₁.Ends (fun _ => true) (items b headersOnly front) :=
    (hends.push hyields (some e) ⟨true, false⟩).received _
  have hyields₁ : functions qi₁.yields = [] :=
    Eq.trans (QueuedIterator.functions_yields_push (some e) ⟨true, false⟩) hyields
  -- both ways out of the callback
  have hout : ∀ qi' : QueuedIterator (Option KvEntry) Unit E, qi'.received = qi₁.received →
      qi'.consumer = qi₁.consumer → qi'.Ends (fun _ => true) (items b headersOnly front) →
      Inv b headersOnly { (w.delivering m).receive e with qi := qi' } := by
    intro qi' hreceived' hconsumer' hends'
    refine ⟨hordered, hcursor, ?_, hreceived'.trans hreceived, ?_, ?_, ?_, ?_⟩
    · show w.feed.consumerSeq + 1 = (w.delivered ++ [m]).length
      rw [List.length_append]
      exact congrArg (· + 1) h.consumerSeq
    · show w.initial <+: (w.delivered ++ [m]) ++ (w.delivering m).feed.pending w.stream
      rw [hrest]
      exact hinitial
    · refine fun expect hlast => ⟨(h.last expect hlast).1, fun htrue => ?_⟩
      exact absurd (hfn.symm.trans htrue) Bool.false_ne_true
    · exact (congrArg _ (hconsumer'.trans hconsumer)).trans h.running
    · refine .gone hfn front (later ++ [m]) ?_ hposition hfront hends'
      exact (congrArg (· ++ [m]) hdelivered).trans (List.append_assoc ..)
  unfold callback
  simp only
  split
  · have hnone : ¬ ((w.delivering m).receive (b.entryOf headersOnly m)).fn = true := by
      rw [show ((w.delivering m).receive (b.entryOf headersOnly m)).fn = false from hfn]
      exact Bool.false_ne_true
    rw [if_neg hnone]
    refine hout (qi₁.push none ⟨true, false⟩) (QueuedIterator.received_push _ _ _)
      (QueuedIterator.consumer_push _ _ _) (hends₁.push hyields₁ none _)
  · exact hout qi₁ rfl rfl hends₁

/-- The code behind `subscribe`. -/
theorem Inv.afterSubscribe {expect : Nat} (h : Inv b headersOnly w) (hlast : w.last = some expect)
    (hsub : w.subscribed = false) :
    Inv b headersOnly (w.afterSubscribe QueuedIterator.stopping expect) := by
  unfold Watcher.afterSubscribe
  simp only
  cases h.status with
  | held hfn hposition htraced hrunning hidle hsubscribed =>
      rw [if_pos hfn]
      split
      · rename_i hcall
        have hle : expect ≤ w.delivered.length := by
          rcases hcall with rfl | hle
          · exact Nat.zero_le _
          · exact h.received ▸ hle
        have hqi := htraced.ends_stop hrunning (functions_items _) (hidle hsub).1
        refine ⟨h.delivered, h.cursor, h.consumerSeq, ?_, h.initial, ?_, ?_, ?_⟩
        · exact (QueuedIterator.received_stop w.qi none).trans h.received
        · exact fun expect hlast => ⟨(h.last expect hlast).1, nofun⟩
        · exact (congrArg _ (QueuedIterator.consumer_stop w.qi none)).trans h.running
        · refine .gone rfl w.delivered [] (List.append_nil _).symm ?_
            (h.initial_le hlast rfl hle) hqi
          exact congrArg some h.received
      · rename_i hnocall
        refine ⟨h.delivered, h.cursor, h.consumerSeq, h.received, h.initial, h.last, h.running, ?_⟩
        refine .held hfn hposition htraced hrunning nofun (fun _ => ⟨hlast, ?_⟩)
        exact Nat.lt_of_not_le fun hle => hnocall (Or.inr hle)
  | gone hfn front rest hdelivered hposition hfront hends =>
      rw [if_neg (by rw [hfn]; exact Bool.false_ne_true)]
      refine ⟨h.delivered, h.cursor, h.consumerSeq, h.received, h.initial, h.last, h.running, ?_⟩
      exact .gone hfn front rest hdelivered hposition hfront hends

/-- Another client writes. -/
theorem Inv.later {stream : Stream} (h : Inv b headersOnly w)
    (hlater : StreamState.Later w.stream stream) (hkeeps : Undisturbed.Keeps w stream) :
    Inv b headersOnly { w with stream := stream } := by
  refine ⟨h.delivered, h.cursor, h.consumerSeq, h.received, ?_, ?_, h.running, ?_⟩
  · rcases Nat.le_total w.initial.length w.delivered.length with hle | hle
    · exact (List.prefix_of_prefix_length_le h.initial (List.prefix_append ..) hle).trans
        (List.prefix_append ..)
    · -- the messages that were delivered, and those that wait
      obtain ⟨waiting, hwaiting⟩ :=
        List.prefix_of_prefix_length_le (List.prefix_append ..) h.initial hle
      have hpending : waiting <+: w.feed.pending w.stream := by
        have hinitial := h.initial
        rw [← hwaiting] at hinitial
        exact (List.prefix_append_right_inj _).1 hinitial
      rw [← hwaiting]
      refine (List.prefix_append_right_inj _).2 (Feed.initial_later hlater hpending fun m hm => ?_)
      refine (hkeeps.1 m (hwaiting ▸ List.mem_append_right _ hm)).resolve_left fun hdelivered => ?_
      have hcursor := (Feed.mem_pending.1 (hpending.subset hm)).2.1
      exact absurd (h.cursor m hdelivered) (Nat.not_le.2 hcursor)
  · exact fun expect hlast => ⟨(h.last expect hlast).1, hkeeps.2 expect hlast⟩
  · cases h.status with
    | held hfn hposition htraced hrunning hidle hsubscribed =>
        exact .held hfn hposition htraced hrunning hidle hsubscribed
    | gone hfn front rest hdelivered hposition hfront hends =>
        exact .gone hfn front rest hdelivered hposition hfront hends

/-- The user goes on. -/
theorem Inv.next {qi : QueuedIterator (Option KvEntry) Unit E} (h : Inv b headersOnly w)
    (hsub : w.subscribed = true)
    (hnext : w.qi.next (fun _ => true) (fun _ => QueuedIterator.stopping) = some qi) :
    Inv b headersOnly { w with qi := qi } := by
  have hreceived := QueuedIterator.received_next hnext
  refine ⟨h.delivered, h.cursor, h.consumerSeq, hreceived.trans h.received, h.initial, ?_,
    QueuedIterator.isRunning_next hnext, ?_⟩
  · exact fun expect hlast => ⟨(h.last expect hlast).1, fun hfn hlt =>
      (h.last expect hlast).2 hfn (hreceived ▸ hlt)⟩
  · cases h.status with
    | held hfn hposition htraced hrunning hidle hsubscribed =>
        have hcalled : qi.called = [] := by
          have hfunctions := (htraced.next hnext).called_le
          rw [functions_items] at hfunctions
          exact List.prefix_nil.1 hfunctions
        refine .held hfn hposition (htraced.next hnext)
          (QueuedIterator.running_next hnext (fun _ => hrunning) hcalled) (fun hnot => ?_)
          (fun _ => ?_)
        · exact absurd (hsub.symm.trans hnot) Bool.noConfusion
        · exact ⟨(hsubscribed hsub).1, hreceived ▸ (hsubscribed hsub).2⟩
    | gone hfn front rest hdelivered hposition hfront hends =>
        exact .gone hfn front rest hdelivered hposition hfront (hends.next (fun _ => rfl) hnext)

/-- **One event.** -/
theorem inv_step {e : WatchEvent} (h : Inv b headersOnly w) (hok : Undisturbed w e)
    (hstep : step b headersOnly w e = some w') : Inv b headersOnly w' := by
  unfold step at hstep
  cases e with
  | deliver =>
      cases hpending : w.feed.pending w.stream with
      | nil =>
          simp only [Watcher.step, hpending] at hstep
          cases hstep
      | cons m rest =>
          simp only [Watcher.step, hpending, Option.some.injEq] at hstep
          rw [← hstep]
          cases h.status with
          | held hfn hposition htraced hrunning hidle hsubscribed =>
              exact h.deliver_held hpending hfn hposition htraced hrunning hidle hsubscribed
          | gone hfn front rest hdelivered hposition hfront hends =>
              exact h.deliver_gone hpending hfn hdelivered hposition hfront hends hok
  | created =>
      cases hlast : w.last with
      | some expect =>
          simp only [Watcher.step, hlast] at hstep
          cases hstep
      | none =>
          simp only [Watcher.step, hlast, Option.some.injEq] at hstep
          rw [← hstep]
          refine ⟨h.delivered, h.cursor, h.consumerSeq, h.received, h.initial, ?_, h.running, ?_⟩
          · rintro expect ⟨⟩
            have hle := h.initial.length_le
            rw [List.length_append] at hle
            refine ⟨by rw [h.consumerSeq, Nat.add_comm]; exact hle, fun _ hlt hnone => ?_⟩
            -- nothing was received before the subscription was made
            rw [hnone, h.consumerSeq, h.received] at hlt
            exact absurd hlt (by simp)
          · cases h.status with
            | held hfn hposition htraced hrunning hidle hsubscribed =>
                refine .held hfn hposition htraced hrunning hidle fun hsub => ?_
                have hsome := (hsubscribed hsub).1
                rw [hlast] at hsome
                cases hsome
            | gone hfn front rest hdelivered hposition hfront hends =>
                exact .gone hfn front rest hdelivered hposition hfront hends
  | subscribed =>
      simp only [Watcher.step] at hstep
      split at hstep
      · rename_i expect hlast hsub
        cases hstep
        exact h.afterSubscribe hlast hsub
      · cases hstep
  | next =>
      simp only [Watcher.step] at hstep
      obtain ⟨hsub, hsome⟩ := Option.ite_none_right_eq_some.1 hstep
      obtain ⟨qi, hnext, rfl⟩ := Option.map_eq_some_iff.1 hsome
      exact h.next hsub hnext
  | publish p time =>
      cases hstep
      exact h.later StreamState.later_append hok
  | remove seq =>
      cases hstep
      exact h.later (StreamState.later_remove seq) hok
  | purge filter keep =>
      cases hstep
      exact h.later (StreamState.later_purge filter keep) hok

/-- What the user got comes from the first of the messages. -/
theorem Inv.yielded (h : Inv b headersOnly w) : ∃ front rest, w.delivered = front ++ rest ∧
    w.qi.yielded <+: entries b headersOnly front ∧ ∀ n, w.position = some n → n = front.length := by
  cases h.status with
  | held hfn hposition htraced hrunning hidle hsubscribed =>
      refine ⟨w.delivered, [], (List.append_nil _).symm, ?_, fun n hn => ?_⟩
      · exact accepted_items (b := b) w.delivered ▸ htraced.yielded_le
      · rw [hposition] at hn
        cases hn
  | gone hfn front rest hdelivered hposition hfront hends =>
      refine ⟨front, rest, hdelivered, ?_, fun n hn => ?_⟩
      · exact accepted_items (b := b) front ▸ hends.yielded_initial
      · rw [hposition] at hn
        exact (Option.some.inj hn).symm

/-- Where nothing is left, the function has run. -/
theorem Inv.exhausted (h : Inv b headersOnly w) (hend : Exhausted w) :
    w.qi.consumer.isFinished = true ∧
      ∃ front, w.initial <+: front ∧ w.qi.yielded = entries b headersOnly front := by
  obtain ⟨hnone, hsub, hnext⟩ := hend
  cases h.status with
  | held hfn hposition htraced hrunning hidle hsubscribed =>
      obtain ⟨hlast, hlt⟩ := hsubscribed hsub
      exact absurd hnone ((h.last w.count hlast).2 hfn hlt)
  | gone hfn front rest hdelivered hposition hfront hends =>
      have hfinished := hends.finished h.running hnext
      exact ⟨hfinished, front, hfront, accepted_items (b := b) front ▸
        hends.yielded_of_finished hfinished⟩

theorem filterMap_entries (ms : List Msg) :
    (entries b headersOnly ms).filterMap id = ms.map (b.entryOf headersOnly) := by
  induction ms with
  | nil => rfl
  | cons m ms ih => exact congrArg (_ :: ·) ih

/-- The revision of an entry is the sequence of its message. -/
theorem revision_entryOf : (b.entryOf headersOnly m).revision = m.seq := by
  unfold Bucket.entryOf
  split <;> rfl

theorem Inv.holds (h : Inv b headersOnly w) : Enumerates b headersOnly w := by
  obtain ⟨front, rest, hdelivered, hyielded, hposition⟩ := h.yielded
  constructor
  · intro v hv
    obtain ⟨m, -, rfl⟩ := List.mem_map.1 (hyielded.subset hv)
    rfl
  · have hsublist := hyielded.sublist.filterMap id
    rw [filterMap_entries] at hsublist
    refine List.Pairwise.sublist hsublist (List.pairwise_map.2 ?_)
    have hfront := h.delivered
    rw [hdelivered] at hfront
    exact (List.pairwise_append.1 hfront).1.imp fun hlt => by
      rw [revision_entryOf, revision_entryOf]
      exact hlt
  · intro hend m hm
    obtain ⟨-, front, hfront, hall⟩ := h.exhausted hend
    rw [hall]
    exact List.mem_map_of_mem (hfront.subset hm)
  · exact fun hend => (h.exhausted hend).1
  · intro n hn
    rw [hposition n hn]
    exact Nat.le_trans hyielded.length_le (Nat.le_of_eq (List.length_map _))

end

/-- **The history, undisturbed.** In a run in which nothing is delivered while the function waits in
the queue, and no message is taken away that the end depends on, the iterator presents entries only,
each once and in the order of their revisions, none behind the function; and where nothing is left
it has presented all that was there at the start, and is finished. -/
theorem enumerates (b : Bucket) (headersOnly : Bool) (keys : List Text) (stream : Stream)
    (w₀ w : Watcher E) (es : List WatchEvent) (hstart : start b keys stream = .ok w₀)
    (hrun : run (step b headersOnly) w₀ es = some w)
    (hok : Meets (step b headersOnly) Undisturbed w₀ es) : Enumerates b headersOnly w := by
  have hinv : Inv b headersOnly w :=
    invariant_run_of_meets (fun _ _ _ h hok hstep => inv_step h hok hstep) hrun hok
      (inv_start hstart)
  exact hinv.holds

/-- An update that is delivered when the iterator has taken the batch with the function. -/
theorem enumerates_update :
    let stream : Stream := (StreamState.empty 2 Nat.two_pos).append
      ⟨"$KV.b.a".toList, ⟨[1], none⟩, false, none⟩ 0
    ∃ w₀ w : Watcher Unit, start (Bucket.plain noopCodec) [">".toList] stream = .ok w₀ ∧
      Enumerates (Bucket.plain noopCodec) false w ∧ w.delivered.length = 2 ∧
      w.qi.consumer.isFinished = true := by
  intro stream
  let b : Bucket := .plain noopCodec
  let w₀ : Watcher Unit := .new stream .All ["$KV.b.>".toList] true
  let es : List WatchEvent := [.deliver, .created, .subscribed, .next,
    .publish ⟨"$KV.b.a".toList, ⟨[2], none⟩, false, none⟩ 1, .deliver, .next]
  have hends : (run (step b false) w₀ es).any
      (fun w => w.delivered.length = 2 ∧ w.qi.consumer.isFinished = true) = true := by
    decide +kernel
  have hok : Meets (step b false) Undisturbed w₀ es := by
    decide +kernel
  obtain ⟨w, hrun, hw⟩ := (Option.any_eq_true _ _).1 hends
  obtain ⟨hdelivered, hfinished⟩ := of_decide_eq_true hw
  exact ⟨w₀, w, rfl, enumerates b false [">".toList] stream w₀ w es rfl hrun hok,
    hdelivered, hfinished⟩

/-- An update that is delivered before the iterator is read brings an `undefined`. -/
theorem not_enumerates :
    ¬ ∀ (b : Bucket) (headersOnly : Bool) (keys : List Text) (stream : Stream) (w₀ w : Watcher Unit)
        (es : List WatchEvent), start b keys stream = .ok w₀ →
      run (step b headersOnly) w₀ es = some w → Enumerates b headersOnly w := by
  intro h
  let b : Bucket := .plain noopCodec
  let stream : Stream := (StreamState.empty 2 Nat.two_pos).append
    ⟨"$KV.b.a".toList, ⟨[1], none⟩, false, none⟩ 0
  let w₀ : Watcher Unit := .new stream .All ["$KV.b.>".toList] true
  let es : List WatchEvent := [.deliver, .publish ⟨"$KV.b.a".toList, ⟨[2], none⟩, false, none⟩ 1,
    .deliver, .created, .subscribed, .next, .next, .next]
  have hends : (run (step b false) w₀ es).any (fun w => none ∈ w.qi.yielded) = true := by
    decide +kernel
  obtain ⟨w, hrun, hw⟩ := (Option.any_eq_true _ _).1 hends
  have hentry := (h b false [">".toList] stream w₀ w es rfl hrun).entry none (of_decide_eq_true hw)
  cases hentry

end NatsClient.Kv.History
