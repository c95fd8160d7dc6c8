import Mathlib.Algebra.GroupWithZero.Nat
import Mathlib.Algebra.Order.BigOperators.Group.List
import Mathlib.Algebra.Order.Group.Nat
import NatsClient.JetStream.PullMessages

/-!
# What is still to come of the pulls

A `Measure` says how much a request may still bring: while it waits in the queue, while the server
holds it, and what of it is on its way. `Within M n b c`: what is still to come in `c` amounts to at
most `b`, and at most `n` messages were handed over. The server never brings more than it was asked
for (`Within.server`), and a function that waits in the queue brings what it brings when it runs
(`Within.pushFn`, `Within.next`).
-/

set_option autoImplicit false

namespace NatsClient.JetStream

open NatsClient.Iterator

/-- What the server makes of a request. -/
def PullRequest.accepted (p : PullRequest) : HeldPull :=
  ⟨p.batch.toNat, p.maxBytes.toNat, p.generation⟩

/-- What is left of a pull behind a message of this size. -/
def HeldPull.less (p : HeldPull) (size : Nat) : HeldPull :=
  ⟨p.batch - 1, p.maxBytes - size, p.generation⟩

/-- The pull is done. -/
def HeldPull.spent (p : HeldPull) (size : Nat) : Prop :=
  (p.less size).batch = 0 ∨ p.maxBytes ≠ 0 ∧ (p.less size).maxBytes = 0

/-- How much requests, pulls and what is sent for them amount to, for those that are in order. -/
structure Measure where
  request : PullRequest → Nat
  held : HeldPull → Nat
  inbound : Inbound → Nat
  requestOk : PullRequest → Prop
  heldOk : HeldPull → Prop
  inboundOk : Inbound → Prop
  publish : ∀ p, requestOk p → 0 < p.batch → heldOk p.accepted ∧ held p.accepted ≤ request p
  answer : ∀ p size, heldOk p → 0 < size → (p.maxBytes ≠ 0 → size ≤ p.maxBytes) →
    held (p.less size) + inbound (.message size p.generation) ≤ held p ∧
      inboundOk (.message size p.generation) ∧ (¬ p.spent size → heldOk (p.less size))
  expire : ∀ code description p, heldOk p →
    inbound (.status code description p.batch p.maxBytes p.generation) ≤ held p ∧
      inboundOk (.status code description p.batch p.maxBytes p.generation)
  status : ∀ code description generation, inbound (.status code description 0 0 generation) = 0
  heartbeat : inbound .heartbeat = 0 ∧ inboundOk .heartbeat

/-- What the parsed options allow. -/
theorem parseOptions_eq {opts parsed : PullConsumerOptions} {refilling : Bool}
    (h : parseOptions opts refilling = .ok parsed) :
    parsed.maxMessages = (if opts.maxMessages = 0 then 100 else opts.maxMessages) ∧
      parsed.maxBytes = opts.maxBytes := by
  unfold parseOptions at h
  split at h
  · cases h
  · extract_lets maxMessages expires at h
    split at h
    · cases h
    · cases h
      exact ⟨rfl, rfl⟩

namespace PullConsumerMessages

/-- What is still to come. -/
def load (M : Measure) (c : PullConsumerMessages) : Nat :=
  (c.queued.map M.request).sum + (c.held.map M.held).sum + (c.wire.map M.inbound).sum

/-- All that is still to come is in order and amounts to at most `b`, and `n` messages at most were
handed over. -/
structure Within (M : Measure) (n b : Nat) (c : PullConsumerMessages) : Prop where
  traced : ∃ items, c.qi.Traced (fun _ => true) items ∧ (accepted (fun _ => true) items).length ≤ n
  delivered : c.delivered.length ≤ n
  queued : ∀ p ∈ c.queued, M.requestOk p
  sent : ∀ p ∈ c.sent, M.requestOk p
  held : ∀ p ∈ c.held, M.heldOk p
  wire : ∀ i ∈ c.wire, M.inboundOk i
  load : c.load M ≤ b

/-- What functions leave alone. -/
structure Frame (c c' : PullConsumerMessages) : Prop where
  opts : c'.opts = c.opts
  refilling : c'.refilling = c.refilling
  callback : c'.callback = c.callback
  pending : c'.pending = c.pending
  received : c'.received = c.received
  generation : c'.generation = c.generation
  /-- They may stop it, but never start it again. -/
  stopping : c.stopping = true → c'.stopping = true

section

variable {M : Measure} {n b : Nat} {c c' : PullConsumerMessages} {f : PullFn}

theorem Frame.refl (c : PullConsumerMessages) : Frame c c := ⟨rfl, rfl, rfl, rfl, rfl, rfl, id⟩

theorem Frame.trans {c'' : PullConsumerMessages} (h : Frame c c') (h' : Frame c' c'') :
    Frame c c'' :=
  ⟨h'.opts.trans h.opts, h'.refilling.trans h.refilling, h'.callback.trans h.callback,
    h'.pending.trans h.pending, h'.received.trans h.received, h'.generation.trans h.generation,
    fun hs => h'.stopping (h.stopping hs)⟩

theorem frame_stop (err : Option String) : Frame c (c.stop err) := by
  rw [PullConsumerMessages.stop]
  split
  · exact .refl c
  · exact ⟨rfl, rfl, rfl, rfl, rfl, rfl, fun _ => rfl⟩

theorem frame_runFn (f : PullFn) : Frame c (c.runFn f) := by
  cases f with
  | publish p => exact ⟨rfl, rfl, rfl, rfl, rfl, rfl, id⟩
  | stop => exact frame_stop none
  | finish err => exact ⟨rfl, rfl, rfl, rfl, rfl, rfl, id⟩

theorem frame_pushFn (f : PullFn) : Frame c (c.pushFn f) := by
  rw [PullConsumerMessages.pushFn]
  split
  · exact frame_runFn f
  · exact ⟨rfl, rfl, rfl, rfl, rfl, rfl, id⟩

theorem frame_pushMsg (size : Nat) (stops : Option (Option String)) :
    Frame c (c.pushMsg size stops) := by
  rw [PullConsumerMessages.pushMsg]
  split
  · split
    · have hdelivered : Frame c { c with delivered := c.delivered ++ [size] } :=
        ⟨rfl, rfl, rfl, rfl, rfl, rfl, id⟩
      exact hdelivered.trans (frame_stop _)
    · exact ⟨rfl, rfl, rfl, rfl, rfl, rfl, id⟩
  · exact ⟨rfl, rfl, rfl, rfl, rfl, rfl, id⟩

theorem frame_foldl (fs : List PullFn) : Frame c (fs.foldl runFn c) := by
  induction fs generalizing c with
  | nil => exact .refl c
  | cons f fs ih => exact (frame_runFn f).trans ih

theorem frame_pull (p : PullRequest) :
    Frame
      { c with
        pending :=
          ⟨c.pending.msgs + p.batch, c.pending.bytes + p.maxBytes, c.pending.requests + 1⟩ }
      (c.pull p) :=
  frame_pushFn (.publish p)

/-- The counts at the end of the callback: with nothing pending, no request is. -/
def atRest (c : PullConsumerMessages) : PullConsumerMessages :=
  if c.pending.msgs = 0 ∧ c.pending.bytes = 0 then
    { c with pending := { c.pending with requests := 0 } }
  else c

theorem settle_eq (c : PullConsumerMessages) :
    c.settle =
      if c.refilling then if c.refills then c.atRest.pull c.atRest.pullOptions else c.atRest
      else if c.atRest.pending.requests = 0 then c.atRest.pushFn .stop
      else c.atRest := by
  unfold settle atRest
  by_cases h : c.pending.msgs = 0 ∧ c.pending.bytes = 0
  · simp only [if_pos h]
    rfl
  · simp only [if_neg h]

theorem atRest_eq (c : PullConsumerMessages) :
    ∃ n, c.atRest = { c with pending := { c.pending with requests := n } } := by
  by_cases h : c.pending.msgs = 0 ∧ c.pending.bytes = 0
  · exact ⟨0, if_pos h⟩
  · exact ⟨c.pending.requests, if_neg h⟩

/-- A fetch makes no pull at the end of the callback. -/
theorem settle_of_fetch (hr : c.refilling = false) :
    ∃ p, c.settle = { c with pending := p } ∨ c.settle = pushFn { c with pending := p } .stop := by
  obtain ⟨n, hn⟩ := c.atRest_eq
  have hfetch : ¬ c.refilling = true := by simp [hr]
  rw [settle_eq, if_neg hfetch, hn]
  split
  · exact ⟨_, .inr rfl⟩
  · exact ⟨_, .inl rfl⟩

/-! ## Functions -/

/-- What a function brings. -/
def fnWeight (M : Measure) (f : PullFn) : Nat :=
  match f with
  | .publish p => M.request p
  | .stop | .finish _ => 0

/-- The request of a function is in order. -/
def FnOk (M : Measure) (f : PullFn) : Prop := ∀ p, f = .publish p → M.requestOk p

theorem sum_requests (fs : List PullFn) :
    ((fs.filterMap PullFn.request).map M.request).sum = (fs.map (fnWeight M)).sum := by
  induction fs with
  | nil => rfl
  | cons f fs ih =>
      cases f with
      | publish p => exact congrArg (M.request p + ·) ih
      | stop | finish err => exact ih.trans (Nat.zero_add _).symm

theorem fnOk_of_queued {fs : List PullFn} (h : ∀ p ∈ fs.filterMap PullFn.request, M.requestOk p) :
    ∀ f ∈ fs, FnOk M f := by
  rintro f hf p rfl
  exact h p (List.mem_filterMap.2 ⟨_, hf, rfl⟩)

theorem queued_pushFn {items : List (Item Nat PullFn)} (h : c.qi.Traced (fun _ => true) items)
    (f : PullFn) :
    queued { c with qi := c.qi.pushFn f } =
      c.queued ++ (if c.qi.done then [] else [f]).filterMap PullFn.request := by
  rw [queued, queued, ← List.filterMap_append]
  exact congrArg _ (QueuedIterator.functions_left_pushFn h f)

/-- A request is published. -/
theorem Within.publish {p : PullRequest} (h : Within M n b c) (hp : M.requestOk p) :
    Within M n (b + M.request p) (c.publish p) := by
  obtain ⟨htraced, hdelivered, hqueued, hsent, hheld, hwire, hload⟩ := h
  have hsent' : ∀ q ∈ c.sent ++ [p], M.requestOk q := by
    intro q hq
    rcases List.mem_append.1 hq with hq | hq
    · exact hsent q hq
    · exact List.mem_singleton.1 hq ▸ hp
  unfold PullConsumerMessages.publish
  split
  · rename_i hpos
    obtain ⟨hok, hle⟩ := M.publish p hp hpos
    refine ⟨htraced, hdelivered, hqueued, hsent', ?_, hwire, ?_⟩
    · intro q hq
      rcases List.mem_append.1 hq with hq | hq
      · exact hheld q hq
      · exact List.mem_singleton.1 hq ▸ hok
    · have hsum : ((c.held ++ [p.accepted]).map M.held).sum = (c.held.map M.held).sum + M.held
          p.accepted := by
        simp
      show (c.queued.map M.request).sum + ((c.held ++ [p.accepted]).map M.held).sum +
        (c.wire.map M.inbound).sum ≤ _
      rw [hsum]
      have hload' : (c.queued.map M.request).sum + (c.held.map M.held).sum +
        (c.wire.map M.inbound).sum ≤ b := hload
      omega
  · exact ⟨htraced, hdelivered, hqueued, hsent', hheld, hwire, Nat.le_add_right_of_le hload⟩

/-- A function waits in the queue. -/
theorem Within.enqueue (h : Within M n b c) (hf : FnOk M f) :
    Within M n (b + fnWeight M f) { c with qi := c.qi.pushFn f } := by
  obtain ⟨⟨items, htraced, hitems⟩, hdelivered, hqueued, hsent, hheld, hwire, hload⟩ := h
  have hq := queued_pushFn htraced f
  have hnew : ∀ p ∈ (if c.qi.done then [] else [f]).filterMap PullFn.request, M.requestOk p := by
    intro p hp
    split at hp
    · cases hp
    · obtain ⟨g, hg, hgp⟩ := List.mem_filterMap.1 hp
      rw [List.mem_singleton.1 hg] at hgp
      cases f with
      | publish q => exact Option.some.inj hgp ▸ hf q rfl
      | stop | finish err => cases hgp
  have hsum : (((if c.qi.done then [] else [f]).filterMap PullFn.request).map M.request).sum ≤
      fnWeight M f := by
    rw [sum_requests]
    split
    · exact Nat.zero_le _
    · simp
  refine ⟨⟨_, htraced.pushFn f, ?_⟩, hdelivered, ?_, hsent, hheld, hwire, ?_⟩
  · split
    · exact hitems
    · rw [accepted_append]
      simpa [accepted] using hitems
  · rw [hq]
    intro p hp
    rcases List.mem_append.1 hp with hp | hp
    · exact hqueued p hp
    · exact hnew p hp
  · have hload' : (c.queued.map M.request).sum + (c.held.map M.held).sum +
      (c.wire.map M.inbound).sum ≤ b := hload
    show ((PullConsumerMessages.queued { c with qi := c.qi.pushFn f }).map M.request).sum +
      (c.held.map M.held).sum + (c.wire.map M.inbound).sum ≤ _
    rw [hq, List.map_append, List.sum_append]
    omega

/-- The iterator is stopped. -/
theorem Within.stopIterator (h : Within M n b c) (err : Option String) :
    Within M n b { c with qi := c.qi.stop err } := by
  obtain ⟨⟨items, htraced, hitems⟩, hdelivered, hqueued, hsent, hheld, hwire, hload⟩ := h
  have hq : PullConsumerMessages.queued { c with qi := c.qi.stop err } = c.queued :=
    congrArg (fun items => (functions items).filterMap PullFn.request)
      (QueuedIterator.left_stop err)
  refine ⟨⟨items, htraced.stop err, hitems⟩, hdelivered, hq ▸ hqueued, hsent, hheld, hwire, ?_⟩
  have hload' : ((PullConsumerMessages.queued { c with qi := c.qi.stop err }).map M.request).sum +
      (c.held.map M.held).sum + (c.wire.map M.inbound).sum ≤ b := by
    rw [hq]
    exact hload
  exact hload'

theorem Within.stop (h : Within M n b c) (err : Option String) : Within M n b (c.stop err) := by
  unfold PullConsumerMessages.stop
  split
  · exact h
  · split
    · have hstop := h.stopIterator err
      exact ⟨hstop.traced, hstop.delivered, hstop.queued, hstop.sent, hstop.held,
        hstop.wire, hstop.load⟩
    · have hpush := h.enqueue (f := .finish err) (fun p hp => by cases hp)
      exact ⟨hpush.traced, hpush.delivered, hpush.queued, hpush.sent, hpush.held,
        hpush.wire, hpush.load⟩

/-- **A function runs.** -/
theorem Within.runFn (h : Within M n b c) (hf : FnOk M f) :
    Within M n (b + fnWeight M f) (c.runFn f) := by
  cases f with
  | publish p => exact h.publish (hf p rfl)
  | stop => exact h.stop none
  | finish err => exact h.stopIterator err

/-- **`_push` of a function.** -/
theorem Within.pushFn (h : Within M n b c) (hf : FnOk M f) :
    Within M n (b + fnWeight M f) (c.pushFn f) := by
  unfold PullConsumerMessages.pushFn
  split
  · exact h.runFn hf
  · exact h.enqueue hf

/-- **`_push` of a message.** -/
theorem Within.pushMsg (h : Within M n b c) (size : Nat) (stops : Option (Option String)) :
    Within M (n + 1) b (c.pushMsg size stops) := by
  obtain ⟨⟨items, htraced, hitems⟩, hdelivered, hqueued, hsent, hheld, hwire, hload⟩ := h
  unfold PullConsumerMessages.pushMsg
  split
  · have hdelivered' : (c.delivered ++ [size]).length ≤ n + 1 := by
      rw [List.length_append]
      exact Nat.succ_le_succ hdelivered
    have hc : Within M (n + 1) b { c with delivered := c.delivered ++ [size] } :=
      ⟨⟨items, htraced, Nat.le_succ_of_le hitems⟩, hdelivered', hqueued, hsent, hheld, hwire, hload⟩
    split
    · exact hc.stop _
    · exact hc
  · have hq : PullConsumerMessages.queued { c with qi := c.qi.push size ⟨true, false⟩ } =
      c.queued :=
      congrArg (List.filterMap PullFn.request) (QueuedIterator.functions_left_push size _)
    refine ⟨⟨_, htraced.push size rfl, ?_⟩, Nat.le_succ_of_le hdelivered, hq ▸ hqueued, hsent,
      hheld, hwire,
      ?_⟩
    · split
      · exact Nat.le_succ_of_le hitems
      · rw [accepted_append, List.length_append]
        exact Nat.succ_le_succ hitems
    · show ((PullConsumerMessages.queued { c with qi := c.qi.push size ⟨true, false⟩ }).map
        M.request).sum + _ + _ ≤ b
      rw [hq]
      exact hload

theorem Within.foldl {fs : List PullFn} (h : Within M n b c) (hfs : ∀ f ∈ fs, FnOk M f) :
    Within M n (b + (fs.map (fnWeight M)).sum) (fs.foldl PullConsumerMessages.runFn c) := by
  induction fs generalizing b c with
  | nil => exact h
  | cons f fs ih =>
      have hf := h.runFn (hfs f List.mem_cons_self)
      have hrest := ih hf fun g hg => hfs g (List.mem_cons_of_mem f hg)
      rw [Nat.add_assoc] at hrest
      exact hrest

/-- **The user goes on**: what runs was queued before. -/
theorem Within.next {qi : QueuedIterator Nat PullFn String} (h : Within M n b c)
    (hnext : c.qi.next (fun _ => true) PullFn.effect = some qi) :
    Within M n b ((qi.called.drop c.qi.called.length).foldl PullConsumerMessages.runFn
      { c with qi := qi }) := by
  obtain ⟨⟨items, htraced, hitems⟩, hdelivered, hqueued, hsent, hheld, hwire, hload⟩ := h
  obtain ⟨new, tail, hcalled, hleft, htail⟩ := htraced.left_next hnext
  have hnew : qi.called.drop c.qi.called.length = new := by
    rw [hcalled, List.drop_left]
  have hsplit : c.queued = new.filterMap PullFn.request ++ tail.filterMap PullFn.request := by
    rw [PullConsumerMessages.queued, hleft, List.filterMap_append]
  have hsub : (PullConsumerMessages.queued { c with qi := qi }).Sublist
    (tail.filterMap PullFn.request) :=
    htail.filterMap PullFn.request
  have hload' : (c.queued.map M.request).sum + (c.held.map M.held).sum +
    (c.wire.map M.inbound).sum ≤ b := hload
  rw [hsplit, List.map_append, List.sum_append] at hload'
  have hsum : ((PullConsumerMessages.queued { c with qi := qi }).map M.request).sum ≤
      ((tail.filterMap PullFn.request).map M.request).sum :=
        (hsub.map M.request).sum_le_sum fun _ _ => Nat.zero_le _
  rw [hnew]
  have hrest : Within M n (b - (new.map (fnWeight M)).sum) { c with qi := qi } := by
    refine ⟨⟨items, htraced.next hnext, hitems⟩, hdelivered, ?_, hsent, hheld, hwire, ?_⟩
    · intro p hp
      exact hqueued p (hsplit ▸ List.mem_append_right _ (hsub.subset hp))
    · show ((PullConsumerMessages.queued { c with qi := qi }).map M.request).sum +
        (c.held.map M.held).sum + (c.wire.map M.inbound).sum ≤ _
      rw [← sum_requests]
      omega
  have hok : ∀ f ∈ new, FnOk M f := fnOk_of_queued fun p hp =>
    hqueued p (hsplit ▸ List.mem_append_left _ hp)
  have hrun := hrest.foldl hok
  refine ⟨hrun.traced, hrun.delivered, hrun.queued, hrun.sent, hrun.held, hrun.wire, ?_⟩
  refine Nat.le_trans hrun.load (Nat.le_of_eq (Nat.sub_add_cancel ?_))
  rw [← sum_requests]
  omega

/-- The other fields play no part. -/
theorem Within.other (h : Within M n b c)
    (heq : (c'.qi, c'.delivered, c'.sent, c'.held, c'.wire) = (c.qi, c.delivered, c.sent,
      c.held, c.wire)) : Within M n b c' := by
  obtain ⟨htraced, hdelivered, hqueued, hsent, hheld, hwire, hload⟩ := h
  simp only [Prod.mk.injEq] at heq
  obtain ⟨hqi', hdelivered', hsent', hheld', hwire'⟩ := heq
  have hq : c'.queued = c.queued := by
    rw [PullConsumerMessages.queued, PullConsumerMessages.queued, hqi']
  refine ⟨hqi' ▸ htraced, hdelivered' ▸ hdelivered, hq ▸ hqueued, hsent' ▸ hsent, hheld' ▸ hheld,
    hwire' ▸ hwire, ?_⟩
  rw [PullConsumerMessages.load, hq, hheld', hwire']
  exact hload

theorem Within.mono {b' : Nat} (h : Within M n b c) (hb : b ≤ b') : Within M n b' c :=
  ⟨h.traced, h.delivered, h.queued, h.sent, h.held, h.wire, Nat.le_trans h.load hb⟩

/-- What is to come, in another measure in which it amounts to nothing. -/
theorem Within.change {M' : Measure} (h : Within M n b c)
    (hrequest : ∀ p, M.requestOk p → M'.requestOk p ∧ M'.request p = 0)
    (hheld : ∀ p, M.heldOk p → M'.heldOk p ∧ M'.held p = 0)
    (hinbound : ∀ i, M.inboundOk i → M'.inboundOk i ∧ M'.inbound i = 0) : Within M' n 0 c := by
  refine ⟨h.traced, h.delivered, fun p hp => (hrequest p (h.queued p hp)).1,
    fun p hp => (hrequest p (h.sent p hp)).1, fun p hp => (hheld p (h.held p hp)).1,
    fun i hi => (hinbound i (h.wire i hi)).1, ?_⟩
  have hsum : ∀ {α : Type} {w : α → Nat} {xs : List α}, (∀ x ∈ xs, w x = 0) →
      (xs.map w).sum = 0 := by
    intro α w xs hw
    refine List.sum_eq_zero fun k hk => ?_
    obtain ⟨x, hx, rfl⟩ := List.mem_map.1 hk
    exact hw x hx
  unfold PullConsumerMessages.load
  rw [hsum fun p hp => (hrequest p (h.queued p hp)).2, hsum fun p hp => (hheld p (h.held p hp)).2,
    hsum fun i hi => (hinbound i (h.wire i hi)).2]

/-- **A pull.** -/
theorem Within.pull {p : PullRequest} (h : Within M n b c) (hp : M.requestOk p) :
    Within M n (b + M.request p) (c.pull p) := by
  have hcount : Within M n b { c with
      pending :=
        ⟨c.pending.msgs + p.batch, c.pending.bytes + p.maxBytes, c.pending.requests + 1⟩ } :=
    h.other rfl
  refine hcount.pushFn (f := .publish p) ?_
  rintro q ⟨⟩
  exact hp

/-- What the constructor does: it pulls from a state in which nothing is to come. -/
theorem new_eq {opts : PullConsumerOptions} {refilling callback bind abortOnMissingResource : Bool}
    (h : new opts refilling callback bind abortOnMissingResource = .ok c) :
    ∃ c₀ : PullConsumerMessages, c = c₀.pull c₀.pullOptions ∧
      parseOptions opts refilling = .ok c₀.opts ∧
      c₀.refilling = refilling ∧ c₀.pending = ⟨0, 0, 0⟩ ∧ c₀.stopping = false ∧ c₀.received = 0 ∧
      c₀.generation = 0 ∧ ∀ M, Within M 0 0 c₀ := by
  unfold new at h
  split at h
  · cases h
  · rename_i opts' hparse
    cases h
    refine ⟨_, rfl, hparse, rfl, rfl, rfl, rfl, rfl, fun M => ?_⟩
    exact ⟨⟨[], QueuedIterator.traced_new, Nat.le_refl 0⟩, Nat.le_refl 0, nofun, nofun,
      nofun, nofun, Nat.le_refl 0⟩

/-! ## The server -/

theorem sum_eraseIdx {α : Type} (w : α → Nat) {xs : List α} {k : Nat} {x : α}
    (h : xs[k]? = some x) : ((xs.eraseIdx k).map w).sum + w x = (xs.map w).sum := by
  induction xs generalizing k with
  | nil => cases h
  | cons y xs ih =>
      cases k with
      | zero =>
          cases h
          exact Nat.add_comm _ _
      | succ k =>
          rw [List.getElem?_cons_succ] at h
          have hrest := ih h
          simp only [List.eraseIdx_cons_succ, List.map_cons, List.sum_cons]
          omega

theorem sum_set {α : Type} (w : α → Nat) {xs : List α} {k : Nat} {x : α} (y : α)
    (h : xs[k]? = some x) : ((xs.set k y).map w).sum + w x = (xs.map w).sum + w y := by
  induction xs generalizing k with
  | nil => cases h
  | cons z xs ih =>
      cases k with
      | zero =>
          cases h
          simp only [List.set_cons_zero, List.map_cons, List.sum_cons]
          omega
      | succ k =>
          rw [List.getElem?_cons_succ] at h
          have hrest := ih h
          simp only [List.set_cons_succ, List.map_cons, List.sum_cons]
          omega

theorem sum_eraseIdx_le {α : Type} (w : α → Nat) (xs : List α) (k : Nat) :
    ((xs.eraseIdx k).map w).sum ≤ (xs.map w).sum :=
  ((xs.eraseIdx_sublist k).map w).sum_le_sum fun _ _ => Nat.zero_le _

/-- The pulls that the server holds, and what is on its way, become these. -/
theorem Within.replace {held : List HeldPull} {wire : List Inbound} (h : Within M n b c)
    (hheld : ∀ p ∈ held, M.heldOk p) (hwire : ∀ i ∈ wire, M.inboundOk i)
    (hsum : (held.map M.held).sum + (wire.map M.inbound).sum ≤
      (c.held.map M.held).sum + (c.wire.map M.inbound).sum) :
    Within M n b { c with held := held, wire := wire } := by
  refine ⟨h.traced, h.delivered, h.queued, h.sent, hheld, hwire, ?_⟩
  have hload : (c.queued.map M.request).sum + (c.held.map M.held).sum +
    (c.wire.map M.inbound).sum ≤ b := h.load
  show (c.queued.map M.request).sum + (held.map M.held).sum + (wire.map M.inbound).sum ≤ b
  omega

theorem inboundOk_append {wire : List Inbound} {i : Inbound} (h : ∀ i ∈ wire, M.inboundOk i)
    (hi : M.inboundOk i) : ∀ j ∈ wire ++ [i], M.inboundOk j := by
  intro j hj
  rcases List.mem_append.1 hj with hj | hj
  · exact h j hj
  · exact List.mem_singleton.1 hj ▸ hi

theorem sum_wire_append (wire : List Inbound) (i : Inbound) :
    ((wire ++ [i]).map M.inbound).sum = (wire.map M.inbound).sum + M.inbound i := by
  simp

theorem answer_of_spent {k size : Nat} {p : HeldPull} (h : p.spent size) :
    c.answer k p size =
      { c with held := c.held.eraseIdx k, wire := c.wire ++ [.message size p.generation] } :=
  congrArg
    (fun held => { c with held := held, wire := c.wire ++ [Inbound.message size p.generation] })
    (if_pos h)

theorem answer_of_not_spent {k size : Nat} {p : HeldPull} (h : ¬ p.spent size) :
    c.answer k p size =
      { c with
        held := c.held.set k (p.less size)
        wire := c.wire ++ [.message size p.generation] } :=
  congrArg
    (fun held => { c with held := held, wire := c.wire ++ [Inbound.message size p.generation] })
    (if_neg h)

/-- **The server brings no more than it was asked for.** -/
theorem Within.answer {k size : Nat} {p : HeldPull} (h : Within M n b c) (hk : c.held[k]? = some p)
    (hsize : 0 < size) (hmax : p.maxBytes ≠ 0 → size ≤ p.maxBytes) :
    Within M n b (c.answer k p size) := by
  obtain ⟨hle, hin, hheld⟩ := M.answer p size (h.held p (List.mem_of_getElem? hk)) hsize hmax
  have hwire := sum_wire_append (M := M) c.wire (.message size p.generation)
  by_cases hspent : p.spent size
  · rw [answer_of_spent hspent]
    refine h.replace (fun q hq => h.held q (List.mem_of_mem_eraseIdx hq))
      (inboundOk_append h.wire hin) ?_
    have herase := sum_eraseIdx M.held hk
    omega
  · rw [answer_of_not_spent hspent]
    refine h.replace ?_ (inboundOk_append h.wire hin) ?_
    · intro q hq
      rcases List.mem_or_eq_of_mem_set hq with hq | rfl
      · exact h.held q hq
      · exact hheld hspent
    · have hset : ((c.held.set k (p.less size)).map M.held).sum + M.held p =
        (c.held.map M.held).sum + M.held (p.less size) := sum_set M.held (p.less size) hk
      omega

theorem Within.expire {k code : Nat} {description : String} {p : HeldPull} (h : Within M n b c)
    (hk : c.held[k]? = some p) :
    Within M n b { c with
      held := c.held.eraseIdx k
      wire := c.wire ++ [.status code description p.batch p.maxBytes p.generation] } := by
  obtain ⟨hle, hin⟩ := M.expire code description p (h.held p (List.mem_of_getElem? hk))
  refine h.replace (fun q hq => h.held q (List.mem_of_mem_eraseIdx hq))
    (inboundOk_append h.wire hin) ?_
  have herase := sum_eraseIdx M.held hk
  rw [sum_wire_append]
  omega

theorem Within.forget (h : Within M n b c) (k : Nat) :
    Within M n b { c with held := c.held.eraseIdx k } :=
  h.replace (fun q hq => h.held q (List.mem_of_mem_eraseIdx hq)) h.wire
    (Nat.add_le_add_right (sum_eraseIdx_le _ _ _) _)

theorem Within.lose (h : Within M n b c) (k : Nat) :
    Within M n b { c with wire := c.wire.eraseIdx k } :=
  h.replace h.held (fun i hi => h.wire i (List.mem_of_mem_eraseIdx hi))
    (Nat.add_le_add_left (sum_eraseIdx_le _ _ _) _)

/-- What brings nothing is on its way. -/
theorem Within.send {i : Inbound} (h : Within M n b c) (hi : M.inboundOk i)
    (hzero : M.inbound i = 0) : Within M n b { c with wire := c.wire ++ [i] } := by
  refine h.replace h.held (inboundOk_append h.wire hi) ?_
  rw [sum_wire_append, hzero]
  exact Nat.le_refl _

/-- **Something arrives.** -/
theorem Within.arrive {i : Inbound} {rest : List Inbound} (h : Within M n b c)
    (hw : c.wire = i :: rest) :
    M.inboundOk i ∧ M.inbound i ≤ b ∧ Within M n (b - M.inbound i) { c with wire := rest } := by
  have hload : (c.queued.map M.request).sum + (c.held.map M.held).sum +
    (c.wire.map M.inbound).sum ≤ b := h.load
  rw [hw, List.map_cons, List.sum_cons] at hload
  refine ⟨h.wire i (hw ▸ List.mem_cons_self),
    by omega, h.traced, h.delivered, h.queued, h.sent, h.held,
    fun j hj => h.wire j (hw ▸ List.mem_cons_of_mem i hj), ?_⟩
  show (c.queued.map M.request).sum + (c.held.map M.held).sum + (rest.map M.inbound).sum ≤ _
  omega

/-! ## One event -/

/-- The event makes `resetPending` pull again. -/
def pullsAgain (c : PullConsumerMessages) : PullMessagesEvent → Bool
  | .heartbeatsMissed | .reconnect => c.bind
  | .info r => r = .found
  | .answer .. | .expire .. | .forget _ | .status .. | .heartbeat | .lose _ | .receive
      _ | .delayed _ | .next
  | .close | .drained | .rejected _ => false

/-- A step that pulls nothing, and takes nothing off: what was to come still is, or has been
lost. -/
structure Quiet (c c' : PullConsumerMessages) : Prop where
  frame : Frame c c'
  within : ∀ {M n b},
    (∀ code description, M.inboundOk (.status code description 0 0 c.generation)) →
    Within M n b c → Within M n b c'

theorem quiet_other
    (heq : (c'.qi, c'.delivered, c'.sent, c'.held, c'.wire) = (c.qi, c.delivered, c.sent,
      c.held, c.wire))
    (hframe : Frame c c') : Quiet c c' :=
  ⟨hframe, fun _ hb => hb.other heq⟩

theorem quiet_stop (err : Option String) : Quiet c (c.stop err) :=
  ⟨frame_stop err, fun _ hb => hb.stop err⟩

theorem quiet_awaitInfo : Quiet c c.awaitInfo := by
  rw [awaitInfo]
  split
  · exact quiet_other rfl (.refl c)
  · exact quiet_other rfl ⟨rfl, rfl, rfl, rfl, rfl, rfl, id⟩

theorem quiet_infoFailed (missing : Option String) : Quiet c (c.infoFailed missing) := by
  have hdelay : Quiet c { c with inBackOff := true, delays := c.delays + 1 } :=
    quiet_other rfl ⟨rfl, rfl, rfl, rfl, rfl, rfl, id⟩
  cases missing with
  | none => exact hdelay
  | some err =>
      show Quiet c (if !c.refilling || c.abortOnMissingResource then _ else _)
      split
      · exact quiet_stop _
      · exact hdelay

theorem Quiet.trans {c'' : PullConsumerMessages} (h : Quiet c c') (h' : Quiet c' c'') :
    Quiet c c'' :=
  ⟨h.frame.trans h'.frame, fun hM hb => h'.within (h.frame.generation ▸ hM) (h.within hM hb)⟩

/-- **What one event does**: something arrives, or another pull is made behind a reset, or
neither. -/
theorem step_cases {e : PullMessagesEvent} (hs : c.step e = some c') :
    (∃ stops i rest, e = .receive stops ∧ c.wire = i :: rest ∧
      c' = if c.stopping then { c with wire := rest } else process
      { c with wire := rest } i stops) ∨
    (c.pullsAgain e = true ∧
      ∃ resets inBackOff, c' = repull { c with resets := resets, inBackOff := inBackOff }) ∨
    Quiet c c' := by
  -- what the server does leaves the counters of the client alone
  have hserver : ∀ {held wire}, (∀ {M n b},
      (∀ code description, M.inboundOk (.status code description 0 0 c.generation)) →
      Within M n b c → Within M n b { c with held := held, wire := wire }) →
      Quiet c { c with held := held, wire := wire } :=
        fun hw => ⟨⟨rfl, rfl, rfl, rfl, rfl, rfl, id⟩, hw⟩
  cases e with
  | answer k size =>
      simp only [step] at hs
      split at hs
      · rename_i p hk
        split at hs
        · rename_i hsize
          cases hs
          exact .inr (.inr (hserver fun _ hb => hb.answer hk hsize.1 hsize.2))
        · cases hs
      · cases hs
  | expire k code description =>
      simp only [step] at hs
      split at hs
      · rename_i p hk
        split at hs
        · cases hs
          exact .inr (.inr (hserver fun _ hb => hb.expire hk))
        · cases hs
      · cases hs
  | forget k =>
      cases hs
      exact .inr (.inr (hserver fun _ hb => hb.forget k))
  | status code description =>
      cases hs
      exact .inr (.inr (hserver fun hM hb => hb.send (hM code description) (Measure.status _ ..)))
  | heartbeat =>
      cases hs
      exact .inr (.inr (hserver fun {M} _ _ _ hb => hb.send M.heartbeat.2 M.heartbeat.1))
  | lose k =>
      cases hs
      exact .inr (.inr (hserver fun _ hb => hb.lose k))
  | receive stops =>
      simp only [step] at hs
      split at hs
      · cases hs
      · rename_i i rest hw
        cases hs
        exact .inl ⟨stops, i, rest, rfl, hw, rfl⟩
  | heartbeatsMissed | reconnect =>
      simp only [step, resetPending] at hs
      split at hs
      · cases hs
      · split at hs
        · rename_i hbind
          cases hs
          -- a bound consumer is pulled from again at once, another one is looked up first
          exact .inr (.inl ⟨hbind, c.resets, c.inBackOff, rfl⟩)
        · cases hs
          split
          · exact .inr (.inr (quiet_other rfl (.refl c)))
          · exact .inr (.inr quiet_awaitInfo)
  | info r =>
      simp only [step] at hs
      split at hs
      · cases hs
        -- only a consumer that is found is pulled from again
        have hanswered : Quiet c { c with resets := c.resets - 1 } :=
          quiet_other rfl ⟨rfl, rfl, rfl, rfl, rfl, rfl, id⟩
        cases r with
        | found => exact .inr (.inl ⟨rfl, c.resets - 1, false, rfl⟩)
        | streamNotFound | consumerNotFound =>
            exact .inr (.inr (hanswered.trans (quiet_infoFailed (some _))))
        | failed => exact .inr (.inr (hanswered.trans (quiet_infoFailed none)))
      · cases hs
  | delayed connectionClosed =>
      simp only [step] at hs
      split at hs
      · have hended : Quiet c { c with delays := c.delays - 1 } :=
          quiet_other rfl ⟨rfl, rfl, rfl, rfl, rfl, rfl, id⟩
        cases hs
        split
        · exact .inr (.inr hended)
        · exact .inr (.inr (hended.trans quiet_awaitInfo))
      · cases hs
  | next =>
      simp only [step] at hs
      split at hs
      · cases hs
      · obtain ⟨qi, hnext, rfl⟩ := Option.map_eq_some_iff.1 hs
        have hqi : Frame c { c with qi := qi } := ⟨rfl, rfl, rfl, rfl, rfl, rfl, id⟩
        exact .inr (.inr ⟨hqi.trans (frame_foldl _), fun _ hb => hb.next hnext⟩)
  | close =>
      cases hs
      exact .inr (.inr (quiet_stop none))
  | drained =>
      cases hs
      exact .inr
        (.inr ⟨frame_pushFn .stop, fun _ hb => hb.pushFn (f := .stop) (fun p hp => by cases hp)⟩)
  | rejected err =>
      cases hs
      exact .inr (.inr (quiet_stop _))

end

end PullConsumerMessages

end NatsClient.JetStream
