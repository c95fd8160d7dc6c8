import NatsClient.Kv.Watcher

/-!
# The end of the initial entries

Model of `watch` (`kv.ts`) and its `initializedFn`. Without writers the consumer delivers what it
selected when it was created. The callback pushes the function behind the last of these messages; a
delete marker that `ignoreDeletes` skips is neither counted nor asked whether it was the last. So
the function is called exactly if the last of the messages is not skipped (`initialises_iff`).
-/

set_option autoImplicit false

namespace NatsClient.Kv

open NatsClient.Foundation NatsClient.JetStream NatsClient.Iterator

/-- `KvWatchInclude`. -/
inductive KvWatchInclude where
  | LastValue
  | AllHistory
  | UpdatesOnly
deriving DecidableEq, Repr

/-- `KvWatchOptions` with their defaults filled in; `keys` is `key`, and `0` no revision. -/
structure KvWatchOptions where
  keys : List Text
  content : KvWatchInclude
  headersOnly : Bool
  ignoreDeletes : Bool
  resumeFromRevision : Nat
deriving DecidableEq, Repr

/-- The deliver policy of `_buildCC`, and `startSequence` behind it. -/
def KvWatchOptions.deliverPolicy (opts : KvWatchOptions) : DeliverPolicy :=
  if 0 < opts.resumeFromRevision then .StartSequence opts.resumeFromRevision
  else
    match opts.content with
    | .LastValue => .LastPerSubject
    | .AllHistory => .All
    | .UpdatesOnly => .New

namespace Watch

variable {E : Type}

section

variable (b : Bucket) (opts : KvWatchOptions)

/-- `watch(opts)` up to the `await` of `subscribe`. -/
def start (stream : Stream) : Except Text (Watcher E) := do
  let filters ← opts.keys.mapM b.filterFor
  return .new stream opts.deliverPolicy filters true

/-- The callback returns early. -/
def skips (jm : Msg) : Bool :=
  opts.ignoreDeletes && (b.entryOf opts.headersOnly jm).operation = .DEL

/-- The callback, on a message with its pending count. -/
def callback (w : Watcher E) (jm : Msg) (pending : Nat) : Watcher E :=
  if skips b opts jm then w
  else
    let w := w.receive (b.entryOf opts.headersOnly jm)
    if w.fn && ((0 < w.count && w.count ≤ w.qi.received) || pending = 0) then w.pushFn else w

/-- The messages whose entries the user gets. -/
def kept (ms : List Msg) : List Msg := ms.filter fun m => !skips b opts m

/-- The entries of some messages, as they are pushed. -/
def entries (ms : List Msg) : List (Item (Option KvEntry) Unit) :=
  (kept b opts ms).map fun m => .value (some (b.entryOf opts.headersOnly m))

/-- The last of the initial messages is skipped. -/
def LastSkipped (w : Watcher E) : Prop := ∃ m, w.initial.getLast? = some m ∧ skips b opts m = true

/-- What the function is for: it is called once, when every initial entry was handed to the user or
skipped, and at once where there is none. -/
structure Initialises (w : Watcher E) : Prop where
  once : w.invoked ≤ 1
  behind : 0 < w.invoked → ∀ m ∈ w.initial,
    skips b opts m = true ∨ some (b.entryOf opts.headersOnly m) ∈ w.qi.yielded
  immediately : w.initial = [] → w.subscribed = true → w.invoked = 1
  eventually : w.Drained → w.invoked = 1

/-- Where the function is. -/
inductive Status (w : Watcher E) : Prop where
  | held (hfn : w.fn = true) (hnotified : w.notified = 0)
      (htraced : w.qi.Traced (fun _ => true) (entries b opts w.delivered)) (hrunning : w.qi.Running)
      (hlast : w.feed.pending w.stream = [] → w.initial = [] ∨ LastSkipped b opts w)
      (hsubscribed : w.subscribed = true → w.initial ≠ [])
  | queued (hfn : w.fn = false) (hnotified : w.notified = 0)
      (hpending : w.feed.pending w.stream = [])
      (hlast : ∃ m, w.initial.getLast? = some m ∧ skips b opts m = false)
      (htraced : w.qi.Traced (fun _ => true) (entries b opts w.delivered ++ [.fn ()]))
      (hrunning : w.qi.called = [] → w.qi.Running)
  | called (hfn : w.fn = false) (hnotified : w.notified = 1) (hinitial : w.initial = [])
      (htraced : w.qi.Traced (fun _ => true) [])

/-- The invariant of the runs without writers. -/
structure Inv (w : Watcher E) : Prop where
  delivered : w.delivered ++ w.feed.pending w.stream = w.initial
  consumerSeq : w.feed.consumerSeq = w.delivered.length
  last : ∀ expect, w.last = some expect → expect = w.initial.length
  count : w.count = 0 ∨ w.count = w.initial.length
  received : w.qi.received = (kept b opts w.delivered).length
  status : Status b opts w

end

section

variable {b : Bucket} {opts : KvWatchOptions} {effect : Effect E} {w w' : Watcher E} {m : Msg}

theorem functions_entries (ms : List Msg) : functions (entries b opts ms) = [] := by
  unfold entries
  induction kept b opts ms with
  | nil => rfl
  | cons m ms ih => exact ih

theorem accepted_entries (ms : List Msg) : accepted (fun _ => true) (entries b opts ms) =
    (kept b opts ms).map fun m => some (b.entryOf opts.headersOnly m) := by
  unfold entries
  induction kept b opts ms with
  | nil => rfl
  | cons m ms ih =>
      simp only [List.map_cons, accepted, if_true]
      rw [ih]

theorem kept_skipped (hskip : skips b opts m = true) (ms : List Msg) :
    kept b opts (ms ++ [m]) = kept b opts ms := by
  simp [kept, List.filter_append, hskip]

theorem kept_concat (hskip : skips b opts m = false) (ms : List Msg) :
    kept b opts (ms ++ [m]) = kept b opts ms ++ [m] := by
  simp [kept, List.filter_append, hskip]

theorem length_kept_le (b : Bucket) (opts : KvWatchOptions) (ms : List Msg) :
    (kept b opts ms).length ≤ ms.length :=
  List.length_filter_le _ _

/-- Where all messages are kept, none is skipped. -/
theorem not_skips_of_length {ms : List Msg} (h : ms.length ≤ (kept b opts ms).length) :
    ∀ m ∈ ms, skips b opts m = false := by
  have hall := List.length_filter_eq_length_iff.1 (Nat.le_antisymm (length_kept_le b opts ms) h)
  intro m hm
  simpa using hall m hm

theorem inv_start {stream : Stream} (h : start b opts stream = .ok w) : Inv b opts w := by
  unfold start at h
  cases hfilters : opts.keys.mapM b.filterFor with
  | error message =>
      rw [hfilters] at h
      cases h
  | ok filters =>
      rw [hfilters] at h
      cases h
      refine ⟨rfl, rfl, nofun, Or.inl rfl, rfl, ?_⟩
      exact .held rfl rfl QueuedIterator.traced_new QueuedIterator.running_new Or.inl
        (fun hsubscribed => by cases hsubscribed)

/-- What a delivery leaves of the messages. -/
theorem Inv.delivering {rest : List Msg} (h : Inv b opts w)
    (hpending : w.feed.pending w.stream = m :: rest) :
    (w.delivering m).delivered ++ rest = w.initial ∧
      (w.delivering m).feed.pending w.stream = rest ∧
      (w.delivering m).feed.consumerSeq = (w.delivering m).delivered.length := by
  refine ⟨?_, Feed.pending_deliver hpending, ?_⟩
  · rw [← h.delivered, hpending]
    exact List.append_assoc ..
  · show w.feed.consumerSeq + 1 = (w.delivered ++ [m]).length
    rw [h.consumerSeq, List.length_append]
    rfl

/-- A message is still to come, so the function is still held. -/
theorem Inv.held {rest : List Msg} (h : Inv b opts w)
    (hpending : w.feed.pending w.stream = m :: rest) :
    w.fn = true ∧ w.notified = 0 ∧ w.qi.Traced (fun _ => true) (entries b opts w.delivered) ∧
      w.qi.Running := by
  obtain ⟨hfn, hnotified, htraced, hrunning, -, -⟩ | ⟨-, -, hnone, -, -, -⟩ | ⟨-, -, hinitial, -⟩ :=
    h.status
  · exact ⟨hfn, hnotified, htraced, hrunning⟩
  · rw [hnone] at hpending
    cases hpending
  · have hnil := h.delivered.trans hinitial
    rw [hpending] at hnil
    simp at hnil

/-- A skipped message changes nothing. -/
theorem Inv.skip {rest : List Msg} (h : Inv b opts w)
    (hpending : w.feed.pending w.stream = m :: rest) (hskip : skips b opts m = true) :
    Inv b opts (w.delivering m) := by
  obtain ⟨hsplit, hrest, hconsumerSeq⟩ := h.delivering hpending
  obtain ⟨hfn, hnotified, htraced, hrunning⟩ := h.held hpending
  have hkept : kept b opts (w.delivered ++ [m]) = kept b opts w.delivered := kept_skipped hskip _
  refine ⟨?_, hconsumerSeq, h.last, h.count, ?_, ?_⟩
  · exact (congrArg _ hrest).trans hsplit
  · exact h.received.trans (congrArg _ hkept.symm)
  · refine .held hfn hnotified ?_ hrunning ?_ (fun _ hnil => ?_)
    · show w.qi.Traced _ (entries b opts (w.delivered ++ [m]))
      rw [entries, hkept]
      exact htraced
    · intro hnone
      refine Or.inr ⟨m, ?_, hskip⟩
      show w.initial.getLast? = some m
      rw [← hsplit, hrest.symm.trans hnone, List.append_nil]
      exact List.getLast?_concat ..
    · rw [show w.initial = [] from hnil] at hsplit
      simp [Watcher.delivering] at hsplit

/-- The state behind the push of an entry. -/
theorem Inv.receive {rest : List Msg} (h : Inv b opts w)
    (hpending : w.feed.pending w.stream = m :: rest) (hskip : skips b opts m = false) :
    let w₁ := (w.delivering m).receive (b.entryOf opts.headersOnly m)
    w₁.qi.received = (kept b opts w₁.delivered).length ∧
      w₁.qi.Traced (fun _ => true) (entries b opts w₁.delivered) ∧ w₁.qi.Running := by
  obtain ⟨-, -, htraced, hrunning⟩ := h.held hpending
  have hkept : kept b opts (w.delivered ++ [m]) = kept b opts w.delivered ++ [m] :=
    kept_concat hskip _
  have hentries : entries b opts (w.delivered ++ [m]) =
      entries b opts w.delivered ++ [.value (some (b.entryOf opts.headersOnly m))] := by
    rw [entries, hkept, List.map_append]
    rfl
  refine ⟨?_, ?_, Watcher.running_receive hrunning _⟩
  · rw [Watcher.received_receive]
    exact (congrArg (· + 1) h.received).trans
      ((congrArg List.length hkept).trans (List.length_append ..)).symm
  · exact hentries ▸ Watcher.traced_receive htraced hrunning.done _

/-- The callback on the next message, of which `rest` are still to come. -/
theorem Inv.deliver {rest : List Msg} (h : Inv b opts w)
    (hpending : w.feed.pending w.stream = m :: rest) :
    Inv b opts (callback b opts (w.delivering m) m rest.length) := by
  unfold callback
  cases hskip : skips b opts m with
  | true =>
      rw [if_pos rfl]
      exact h.skip hpending hskip
  | false =>
      rw [if_neg Bool.false_ne_true]
      obtain ⟨hsplit, hrest, hconsumerSeq⟩ := h.delivering hpending
      obtain ⟨hfn, hnotified, -, -⟩ := h.held hpending
      obtain ⟨hreceived, htraced, hrunning⟩ := h.receive hpending hskip
      have hdelivered := (congrArg ((w.delivering m).delivered ++ ·) hrest).trans hsplit
      simp only
      split
      · -- the function is pushed only behind the last message
        rename_i hfire
        have hnil : rest = [] := by
          simp only [Bool.and_eq_true, Bool.or_eq_true, decide_eq_true_eq] at hfire
          rcases hfire.2 with ⟨hpos, hle⟩ | hnone
          · have hcount : w.initial.length ≤ (kept b opts (w.delivering m).delivered).length := by
              rcases h.count with hcount | hcount
              · exact absurd hcount (Nat.ne_of_gt hpos)
              · rw [← hcount]
                exact hreceived ▸ hle
            have hle' := length_kept_le b opts (w.delivering m).delivered
            rw [← hsplit, List.length_append] at hcount
            exact List.length_eq_zero_iff.1 (by omega)
          · exact List.length_eq_zero_iff.1 hnone
        refine ⟨hdelivered, hconsumerSeq, h.last, h.count, ?_, ?_⟩
        · exact (QueuedIterator.received_pushFn _ _).trans hreceived
        · refine .queued rfl hnotified (hrest.trans hnil) ⟨m, ?_, hskip⟩ ?_ (fun _ => ?_)
          · show w.initial.getLast? = some m
            rw [← hsplit, hnil, List.append_nil]
            exact List.getLast?_concat ..
          · exact Watcher.traced_pushFn htraced hrunning.done
          · exact hrunning.pushFn ()
      · rename_i hnofire
        have hsome : rest ≠ [] := by
          rintro rfl
          apply hnofire
          show (w.fn && _) = true
          simp [hfn]
        refine ⟨hdelivered, hconsumerSeq, h.last, h.count, hreceived, ?_⟩
        refine .held hfn hnotified htraced hrunning (fun hnone => ?_) (fun _ hnil => ?_)
        · exact absurd (hrest.symm.trans hnone) hsome
        · rw [show w.initial = [] from hnil] at hsplit
          exact absurd (List.append_eq_nil_iff.1 hsplit).2 hsome

/-- The code behind `subscribe` calls the function only where there is no initial message. -/
theorem Inv.afterSubscribe {expect : Nat} (h : Inv b opts w) (hlast : w.last = some expect) :
    Inv b opts (w.afterSubscribe effect expect) := by
  have hexpect := h.last expect hlast
  unfold Watcher.afterSubscribe
  simp only
  split
  · rename_i hfn
    obtain ⟨-, hnotified, htraced, hrunning, hend, -⟩ | ⟨hfn', -, -, -, -, -⟩ | ⟨hfn', -, -, -⟩ :=
      h.status
    · split
      · rename_i hcall
        have hnone : w.initial = [] := by
          rcases hcall with hzero | hle
          · exact List.length_eq_zero_iff.1 (hexpect.symm.trans hzero)
          · -- all messages were delivered and kept, so the last one was not skipped
            rw [hexpect, h.received] at hle
            have hlen := congrArg List.length h.delivered
            have hle' := length_kept_le b opts w.delivered
            rw [List.length_append] at hlen
            have hpending : w.feed.pending w.stream = [] := List.length_eq_zero_iff.1 (by omega)
            have hall := h.delivered
            rw [hpending, List.append_nil] at hall
            rcases hend hpending with hnone | ⟨m, hm, hskip⟩
            · exact hnone
            · have hmem : m ∈ w.delivered := hall.symm ▸ List.mem_of_getLast? hm
              have hkept : skips b opts m = false := not_skips_of_length (by omega) m hmem
              rw [hskip] at hkept
              cases hkept
        have hdelivered : w.delivered = [] := (List.append_eq_nil_iff.1 (h.delivered.trans hnone)).1
        rw [hdelivered] at htraced
        refine ⟨h.delivered, h.consumerSeq, h.last, h.count, ?_, .called rfl ?_ hnone ?_⟩
        · refine Eq.trans ?_ h.received
          simp only [Watcher.callFn]
          split
          · rw [QueuedIterator.received_stop]
            exact QueuedIterator.received_apply _ _
          · exact QueuedIterator.received_apply _ _
        · exact congrArg (· + 1) hnotified
        · have happlied : (w.qi.apply effect).Traced (fun _ => true) [] := by
            unfold QueuedIterator.apply
            split
            · exact htraced.stop _
            · exact htraced
          simp only [Watcher.callFn]
          split
          · exact happlied.stop _
          · exact happlied
      · rename_i hnocall
        refine ⟨h.delivered, h.consumerSeq, h.last, Or.inr hexpect, h.received, ?_⟩
        refine .held hfn hnotified htraced hrunning hend (fun _ hnone => ?_)
        apply hnocall
        exact Or.inl (hexpect.trans (List.length_eq_zero_iff.2 hnone))
    · rw [hfn] at hfn'
      cases hfn'
    · rw [hfn] at hfn'
      cases hfn'
  · rename_i hfn
    refine ⟨h.delivered, h.consumerSeq, h.last, h.count, h.received, ?_⟩
    obtain ⟨hfn', -, -, -, -, -⟩ | ⟨hfn', hnotified, hpending, hlast, htraced, hrunning⟩ |
      ⟨hfn', hnotified, hinitial, htraced⟩ := h.status
    · exact absurd hfn' hfn
    · exact .queued hfn' hnotified hpending hlast htraced hrunning
    · exact .called hfn' hnotified hinitial htraced

/-- The user goes on. -/
theorem Inv.next {qi : QueuedIterator (Option KvEntry) Unit E} (h : Inv b opts w)
    (hnext : w.qi.next (fun _ => true) (fun _ => effect) = some qi) :
    Inv b opts { w with qi := qi } := by
  have hcalled := QueuedIterator.running_next hnext
  refine ⟨h.delivered, h.consumerSeq, h.last, h.count, ?_, ?_⟩
  · exact (QueuedIterator.received_next hnext).trans h.received
  · obtain ⟨hfn, hnotified, htraced, hrunning, hlast, hsubscribed⟩ |
      ⟨hfn, hnotified, hpending, hlast, htraced, hrunning⟩ | ⟨hfn, hnotified, hinitial, htraced⟩ :=
      h.status
    · have hnone : qi.called = [] := by
        have hfunctions := (htraced.next hnext).called_le
        rw [functions_entries] at hfunctions
        exact List.prefix_nil.1 hfunctions
      exact .held hfn hnotified (htraced.next hnext) (hcalled (fun _ => hrunning) hnone) hlast
        hsubscribed
    · exact .queued hfn hnotified hpending hlast (htraced.next hnext) (hcalled hrunning)
    · exact .called hfn hnotified hinitial (htraced.next hnext)

/-- **One event**, of a consumer without writers. -/
theorem inv_step {e : WatchEvent} (h : Inv b opts w) (hquiet : w.Quiet e)
    (hstep : w.step (callback b opts) effect e = some w') : Inv b opts w' := by
  cases e with
  | deliver =>
      cases hpending : w.feed.pending w.stream with
      | nil =>
          simp only [Watcher.step, hpending] at hstep
          cases hstep
      | cons m rest =>
          simp only [Watcher.step, hpending, Option.some.injEq] at hstep
          rw [← hstep]
          exact h.deliver hpending
  | created =>
      cases hlast : w.last with
      | some expect =>
          simp only [Watcher.step, hlast] at hstep
          cases hstep
      | none =>
          simp only [Watcher.step, hlast, Option.some.injEq] at hstep
          rw [← hstep]
          refine ⟨h.delivered, h.consumerSeq, fun expect hexpect => ?_, h.count, h.received, ?_⟩
          · cases hexpect
            -- what the answer says is pending is all that is to come, since nobody writes
            rw [← h.delivered, h.consumerSeq, List.length_append, Nat.add_comm]
          · obtain ⟨hfn, hnotified, htraced, hrunning, hlast, hsubscribed⟩ |
              ⟨hfn, hnotified, hpending, hlast, htraced, hrunning⟩ |
              ⟨hfn, hnotified, hinitial, htraced⟩ := h.status
            · exact .held hfn hnotified htraced hrunning hlast hsubscribed
            · exact .queued hfn hnotified hpending hlast htraced hrunning
            · exact .called hfn hnotified hinitial htraced
  | subscribed =>
      simp only [Watcher.step] at hstep
      split at hstep
      · rename_i expect hlast _
        cases hstep
        exact h.afterSubscribe hlast
      · cases hstep
  | next =>
      simp only [Watcher.step] at hstep
      obtain ⟨-, hsome⟩ := Option.ite_none_right_eq_some.1 hstep
      obtain ⟨qi, hnext, rfl⟩ := Option.map_eq_some_iff.1 hsome
      exact h.next hnext
  | publish p time | remove seq | purge filter keep => exact absurd hquiet id

theorem initial_of_step {e : WatchEvent} (hstep : w.step (callback b opts) effect e = some w') :
    w'.initial = w.initial := by
  cases e with
  | deliver =>
      simp only [Watcher.step] at hstep
      split at hstep
      · cases hstep
      · cases hstep
        unfold callback
        split
        · rfl
        · simp only
          split <;> rfl
  | created =>
      simp only [Watcher.step] at hstep
      split at hstep
      · cases hstep
        rfl
      · cases hstep
  | subscribed =>
      simp only [Watcher.step] at hstep
      split at hstep
      · cases hstep
        simp only [Watcher.afterSubscribe]
        split
        · split <;> rfl
        · rfl
      · cases hstep
  | next =>
      simp only [Watcher.step] at hstep
      obtain ⟨-, hsome⟩ := Option.ite_none_right_eq_some.1 hstep
      obtain ⟨qi, -, rfl⟩ := Option.map_eq_some_iff.1 hsome
      rfl
  | publish p time | remove seq | purge filter keep =>
      cases hstep
      rfl

/-- The function is called at most once. -/
theorem Inv.once (h : Inv b opts w) : w.invoked ≤ 1 := by
  unfold Watcher.invoked
  obtain ⟨-, hnotified, htraced, -, -, -⟩ | ⟨-, hnotified, -, -, htraced, -⟩ |
    ⟨-, hnotified, -, htraced⟩ := h.status
  · have hle := htraced.called_le.length_le
    rw [functions_entries] at hle
    rw [hnotified]
    exact Nat.le_trans (Nat.le_of_eq (Nat.zero_add _)) (Nat.le_succ_of_le hle)
  · have hle := htraced.called_le.length_le
    rw [functions_append, functions_entries] at hle
    rw [hnotified]
    exact Nat.le_trans (Nat.le_of_eq (Nat.zero_add _)) hle
  · have hle := htraced.called_le.length_le
    rw [hnotified]
    exact Nat.add_le_add_left hle 1

/-- While the function is held it is not called. -/
theorem invoked_held (hnotified : w.notified = 0)
    (htraced : w.qi.Traced (fun _ => true) (entries b opts w.delivered)) : w.invoked = 0 := by
  have hcalled := htraced.called_le
  rw [functions_entries] at hcalled
  unfold Watcher.invoked
  rw [hnotified, List.prefix_nil.1 hcalled]
  rfl

/-- The entries come in front of the function. -/
theorem Inv.behind (h : Inv b opts w) (hinvoked : 0 < w.invoked) (hm : m ∈ w.initial) :
    skips b opts m = true ∨ some (b.entryOf opts.headersOnly m) ∈ w.qi.yielded := by
  obtain ⟨-, hnotified, htraced, -, -, -⟩ | ⟨-, hnotified, hpending, -, htraced, -⟩ |
    ⟨-, -, hinitial, -⟩ := h.status
  · rw [invoked_held hnotified htraced] at hinvoked
    exact absurd hinvoked (Nat.lt_irrefl 0)
  · cases hskip : skips b opts m with
    | true => exact Or.inl rfl
    | false =>
        have hcalled : w.qi.called ≠ [] := by
          intro hnil
          rw [Watcher.invoked, hnotified, hnil] at hinvoked
          exact absurd hinvoked (Nat.lt_irrefl 0)
        have hdelivered := h.delivered
        rw [hpending, List.append_nil] at hdelivered
        rw [htraced.yielded_of_called (functions_entries _) hcalled, accepted_entries]
        refine Or.inr (List.mem_map_of_mem (List.mem_filter.2 ⟨hdelivered.symm ▸ hm, ?_⟩))
        rw [hskip]
        rfl
  · rw [hinitial] at hm
    cases hm

/-- The function is called at once where there is nothing to wait for. -/
theorem Inv.immediately (h : Inv b opts w) (hinitial : w.initial = [])
    (hsubscribed : w.subscribed = true) : w.invoked = 1 := by
  apply Nat.le_antisymm h.once
  obtain ⟨-, -, -, -, -, hsome⟩ | ⟨-, -, -, ⟨m, hm, -⟩, -, -⟩ | ⟨-, hnotified, -, -⟩ := h.status
  · exact absurd hinitial (hsome hsubscribed)
  · rw [hinitial] at hm
    cases hm
  · rw [Watcher.invoked, hnotified]
    exact Nat.le_add_right ..

/-- Once everything was delivered and taken, the function was called exactly if the last message was
not skipped. -/
theorem Inv.eventually (h : Inv b opts w) (hdrained : w.Drained) :
    w.invoked = 1 ↔ ¬ LastSkipped b opts w := by
  obtain ⟨hnone, hsubscribed, hqi⟩ := hdrained
  obtain ⟨-, hnotified, htraced, -, hlast, hsome⟩ | ⟨-, hnotified, -, ⟨m, hm, hskip⟩,
      htraced, hrunning⟩ |
    ⟨-, hnotified, hinitial, -⟩ := h.status
  · rw [invoked_held hnotified htraced]
    have hskipped := (hlast hnone).resolve_left (hsome hsubscribed)
    exact ⟨fun hzero => absurd hzero Nat.zero_ne_one, fun hnot => absurd hskipped hnot⟩
  · constructor
    · rintro - ⟨m', hm', hskip'⟩
      rw [hm] at hm'
      cases hm'
      rw [hskip] at hskip'
      cases hskip'
    · intro _
      apply Nat.le_antisymm h.once
      have hcalled : w.qi.called ≠ [] := by
        intro hnil
        -- nothing but the function ends the iterator, so it waits and went through everything
        rcases hqi with hfinished | ⟨hwaiting, hyields⟩
        · rw [(hrunning hnil).consumer] at hfinished
          cases hfinished
        · have hall := (htraced.of_waiting hwaiting hyields).2
          rw [hnil, functions_append, functions_entries] at hall
          cases hall
      rw [Watcher.invoked]
      exact Nat.le_add_left_of_le (List.length_pos_iff.2 hcalled)
  · constructor
    · rintro - ⟨m, hm, -⟩
      rw [hinitial] at hm
      cases hm
    · intro _
      apply Nat.le_antisymm h.once
      rw [Watcher.invoked, hnotified]
      exact Nat.le_add_right ..

end

/-- **When the end of the initial entries is signalled.** In a run without writers, where the last
of the messages that the consumer selected is not a marker that `ignoreDeletes` skips, the function
is called once, behind all of them. And it is called only there. -/
theorem initialises_iff (b : Bucket) (opts : KvWatchOptions) (effect : Effect E) (stream : Stream)
    (w₀ w : Watcher E) (es : List WatchEvent) (hstart : start b opts stream = .ok w₀)
    (hrun : run (Watcher.step (callback b opts) effect) w₀ es = some w)
    (hquiet : Meets (Watcher.step (callback b opts) effect) Watcher.Quiet w₀ es) :
    (¬ LastSkipped b opts w₀ → Initialises b opts w) ∧
      (w.Drained → Initialises b opts w → ¬ LastSkipped b opts w₀) := by
  have hinv : Inv b opts w :=
    invariant_run_of_meets (fun _ _ _ h hok hstep => inv_step h hok hstep) hrun hquiet
      (inv_start hstart)
  have hinitial : w.initial = w₀.initial :=
    invariant_run (I := fun w => w.initial = w₀.initial)
      (fun _ _ _ h hstep => (initial_of_step hstep).trans h) hrun rfl
  have hskipped : LastSkipped b opts w ↔ LastSkipped b opts w₀ := by
    unfold LastSkipped
    rw [hinitial]
  constructor
  · intro hlast
    exact ⟨hinv.once, fun hinvoked m hm => hinv.behind hinvoked hm, hinv.immediately,
      fun hdrained => (hinv.eventually hdrained).2 (mt hskipped.1 hlast)⟩
  · intro hdrained hinit hlast
    exact (hinv.eventually hdrained).1 (hinit.eventually hdrained) (hskipped.2 hlast)

/-- A stream with the marker of a deleted key in front of a live one. -/
theorem initialises_iff_marker_first :
    let stream : Stream := ((StreamState.empty 1 Nat.one_pos).append
      ⟨"$KV.b.a".toList, ⟨[], some .DEL⟩, false, none⟩ 0).append
      ⟨"$KV.b.c".toList, ⟨[1], none⟩, false, none⟩ 1
    let opts : KvWatchOptions := ⟨[">".toList], .LastValue, false, true, 0⟩
    ∃ w₀ w : Watcher Unit, start (Bucket.plain noopCodec) opts stream = .ok w₀ ∧
      Initialises (Bucket.plain noopCodec) opts w ∧ w.invoked = 1 := by
  intro stream opts
  let b : Bucket := .plain noopCodec
  let effect : Effect Unit := ⟨none, none⟩
  let w₀ : Watcher Unit := .new stream .LastPerSubject ["$KV.b.>".toList] true
  let es : List WatchEvent := [.deliver, .created, .subscribed, .deliver, .next, .next]
  have hends : (run (Watcher.step (callback b opts) effect) w₀ es).any
      (fun w => w.invoked = 1) = true := by
    decide +kernel
  have hquiet : Meets (Watcher.step (callback b opts) effect) Watcher.Quiet w₀ es := by
    decide +kernel
  have hlast : w₀.initial.getLast?.any (skips b opts) = false := by decide +kernel
  obtain ⟨w, hrun, hinvoked⟩ := (Option.any_eq_true _ _).1 hends
  refine ⟨w₀, w, rfl, ?_, of_decide_eq_true hinvoked⟩
  apply (initialises_iff b opts effect stream w₀ w es rfl hrun hquiet).1
  rintro ⟨m, hm, hskip⟩
  rw [hm, Option.any_some, hskip] at hlast
  cases hlast

/-- Where the marker is the only message, the function is never called. -/
theorem not_initialises :
    ¬ ∀ (b : Bucket) (opts : KvWatchOptions) (effect : Effect Unit) (stream : Stream)
        (w₀ w : Watcher Unit) (es : List WatchEvent), start b opts stream = .ok w₀ →
      run (Watcher.step (callback b opts) effect) w₀ es = some w →
      Meets (Watcher.step (callback b opts) effect) Watcher.Quiet w₀ es → Initialises b opts w := by
  intro h
  let b : Bucket := .plain noopCodec
  let opts : KvWatchOptions := ⟨[">".toList], .LastValue, false, true, 0⟩
  let effect : Effect Unit := ⟨none, none⟩
  let stream : Stream := (StreamState.empty 1 Nat.one_pos).append
    ⟨"$KV.b.a".toList, ⟨[], some .DEL⟩, false, none⟩ 0
  let w₀ : Watcher Unit := .new stream .LastPerSubject ["$KV.b.>".toList] true
  let es : List WatchEvent := [.deliver, .created, .subscribed, .next]
  have hends : (run (Watcher.step (callback b opts) effect) w₀ es).any (fun w =>
      w.feed.pending w.stream = [] ∧ w.subscribed = true ∧ w.qi.consumer = .waiting ∧
        w.qi.yields = [] ∧ w.invoked = 0) = true := by
    decide +kernel
  obtain ⟨w, hrun, hw⟩ := (Option.any_eq_true _ _).1 hends
  obtain ⟨hnone, hsubscribed, hwaiting, hyields, hinvoked⟩ := of_decide_eq_true hw
  have hinit := h b opts effect stream w₀ w es rfl hrun (by decide +kernel)
  have hcalled := hinit.eventually ⟨hnone, hsubscribed, Or.inr ⟨hwaiting, hyields⟩⟩
  rw [hinvoked] at hcalled
  cases hcalled

end Watch

end NatsClient.Kv
