import NatsClient.Connection.Closing
import NatsClient.Connection.TableIntegrity

/-!
# The drain of a connection

When the promise of `drain()` (`protocol.ts`) resolves. It resolves behind the close, and it
resolves too when something it waits for is rejected, because that is caught: then the connection is
left open.

What it waits for is rejected in two cases. The drain of a subscription that is closed, and still in
the table, is rejected at once. The flush at the end is rejected by a dial. In all runs without the
two (`Undisturbed`) the connection is closed when the promise resolves, and its subscriptions have
ended (`drain_closes`).

A subscription is in the table, or it has ended; this carries the proof (`Accounted`).
-/

set_option autoImplicit false

namespace NatsClient.Connection

open NatsClient.Foundation NatsClient.Iterator

/-! ## The close of the link -/

namespace Link

variable {s s' : Link}

theorem closed_close (s : Link) : s.close.closed = true := by
  rw [close]
  split
  · assumption
  · rfl

theorem closed_flush (s : Link) : s.flush.closed = s.closed := closed_flushPending _

theorem closed_dialDone (s : Link) (subs : List Command) : (s.dialDone subs).closed = s.closed :=
  closed_flushPending _

/-- A closed connection stays closed. -/
theorem closed_step {e : Event} (hclosed : s.closed = true) (hstep : s.step e = some s') :
    s'.closed = true := by
  cases step_of_eq hstep with
  | command c => exact (closed_sendCommand s c).trans hclosed
  | flush => exact (closed_flush s).trans hclosed
  | flushTask => exact (closed_flushPending s).trans hclosed
  | heartbeatTimer =>
      rw [heartbeatTimer]
      split
      · exact hclosed
      · exact (closed_flush s).trans hclosed
  | heartbeatThen ping o => cases o <;> exact hclosed
  | prepare | ping | disconnect => exact hclosed
  | info options =>
      unfold processInfo
      split
      · exact hclosed
      · split
        · exact hclosed
        · exact closed_close _
  | pong =>
      rw [processPong]
      split <;> exact hclosed
  | dialDone subs => exact (closed_dialDone s subs).trans hclosed
  | dialFailed connectFailed =>
      unfold dialFailed
      split
      · split <;> exact hclosed
      · exact hclosed
  | closedNotification reconnect =>
      rw [closedNotification, if_pos hclosed]
      exact hclosed
  | giveUp => exact closed_close _
  | close => exact closed_close s

theorem Runs.closed {P : Event → Prop} (hr : Runs P s s') (hclosed : s.closed = true) :
    s'.closed = true :=
  hr.invariant (I := fun s => s.closed = true) (fun _ _ _ h _ hstep => closed_step h hstep) hclosed

end Link

/-! ## Subscriptions that have ended -/

namespace SubscriptionImpl

variable {μ E : Type} {s s' : SubscriptionImpl μ E}

/-- The subscription is done, or the function that stops it is on its way to the consumer. -/
def Ended (s : SubscriptionImpl μ E) : Prop :=
  s.iter.done = true ∨ .fn .closeFn ∈ s.iter.consumer.batch ++ s.iter.yields

theorem ended_stop (s : SubscriptionImpl μ E) (err : Option E) : (s.stop err).Ended := by
  left
  show (s.iter.stop err).done = true
  rw [QueuedIterator.stop]
  split
  · assumption
  · rfl

theorem ended_finish (it : QueuedIterator μ CloseFn E) (err : Option E) :
    (it.finish err).done = true := by
  show (it.stop none).done = true
  rw [QueuedIterator.stop]
  split
  · assumption
  · rfl

/-- **A close ends a subscription.** -/
theorem ended_close (s : SubscriptionImpl μ E) : s.close.Ended := by
  unfold close
  split
  · next hdone => exact .inl hdone
  · next hopen =>
    have hdone : ¬ s.iter.done = true := hopen
    split
    · exact ended_stop s.cancelTimeout none
    · right
      show _ ∈ (s.iter.pushFn .closeFn).consumer.batch ++ (s.iter.pushFn .closeFn).yields
      rw [QueuedIterator.pushFn, if_neg hdone]
      exact List.mem_append_right _ (List.mem_append_right _ (List.mem_singleton_self _))

theorem Ended.push (h : s.Ended) (v : μ) : (s.push v).Ended := by
  show (s.iter.push v ⟨true, false⟩).done = true ∨
    .fn .closeFn ∈ (s.iter.push v ⟨true, false⟩).consumer.batch ++
    (s.iter.push v ⟨true, false⟩).yields
  rw [QueuedIterator.push]
  split
  · exact h
  · rcases h with hdone | hmem
    · exact .inl hdone
    · right
      rcases List.mem_append.1 hmem with hmem | hmem
      · exact List.mem_append_left _ hmem
      · exact List.mem_append_right _ (List.mem_append_left _ hmem)

/-- Where the generator is not in a batch, it takes what was pushed. -/
theorem ended_takeBatch {it : QueuedIterator μ CloseFn E} (hbatch : it.consumer.batch = [])
    (h : it.done = true ∨ .fn .closeFn ∈ it.consumer.batch ++ it.yields) :
    it.takeBatch.done = true ∨
      .fn .closeFn ∈ it.takeBatch.consumer.batch ++ it.takeBatch.yields := by
  rw [QueuedIterator.takeBatch]
  split
  · exact .inl (ended_finish it _)
  · rcases h with hdone | hmem
    · exact .inl hdone
    · rw [hbatch] at hmem
      exact .inr (List.mem_append_left _ hmem)

/-- The consumer runs on, and what has ended stays so. -/
theorem Ended.next (h : s.Ended) (hnext : s.next = some s') : s'.Ended := by
  unfold SubscriptionImpl.next at hnext
  split at hnext
  · next it hit =>
    cases hnext
    refine QueuedIterator.next_induction
      (I := fun it : QueuedIterator μ CloseFn E => it.done = true ∨
      Item.fn CloseFn.closeFn ∈ it.consumer.batch ++ it.yields) ?_ ?_ hit h
    · intro x x' hx hres
      cases hc : x.consumer with
      | idle =>
          simp only [QueuedIterator.resume, hc, Option.some.injEq] at hres
          rw [← hres]
          split
          · next hempty =>
            rcases hx with hdone | hmem
            · exact .inl hdone
            · rw [hc, hempty] at hmem
              cases hmem
          · exact ended_takeBatch (by rw [hc]; rfl) hx
      | waiting =>
          simp only [QueuedIterator.resume, hc, Option.ite_none_right_eq_some,
            Option.some.injEq] at hres
          obtain ⟨-, rfl⟩ := hres
          exact ended_takeBatch (by rw [hc]; rfl) hx
      | presenting v batch =>
          simp only [QueuedIterator.resume, hc, Option.some.injEq] at hres
          rw [← hres]
          rw [hc] at hx
          exact hx
      | running batch | finished err =>
          simp only [QueuedIterator.resume, hc] at hres
          cases hres
    · intro x hx hrun
      cases hc : x.consumer with
      | idle | waiting | presenting v batch | finished err =>
          rw [hc] at hrun
          cases hrun
      | running batch =>
          rw [hc] at hx
          rcases batch with - | ⟨v | f, batch⟩
          · simp only [QueuedIterator.tick, hc]
            split
            · exact .inl (ended_finish x none)
            · next hopen =>
              split
              · next hempty =>
                rcases hx with hdone | hmem
                · exact absurd hdone hopen
                · rw [hempty] at hmem
                  cases hmem
              · exact ended_takeBatch (by rw [hc]; rfl) (by rw [hc]; exact hx)
          · simp only [QueuedIterator.tick, hc, if_true]
            rcases hx with hdone | hmem
            · exact .inl hdone
            · right
              rcases List.mem_cons.1 hmem with heq | hmem
              · cases heq
              · exact hmem
          · -- every function stops the iterator
            have hstop : (x.stop none).done = true := ended_finish x none
            simp only [QueuedIterator.tick, hc, QueuedIterator.apply, closeEffect]
            left
            split
            · exact ended_finish _ _
            · exact hstop
  · cases hnext

end SubscriptionImpl

/-! ## The objects of the handler -/

namespace ProtocolHandler

variable {μ E : Type} {h h' : ProtocolHandler μ E} {s s' : SubscriptionImpl μ E} {o : Nat}

/-- A subscription that is not in the table has ended, and with the connection all have. -/
structure Accounted (h : ProtocolHandler μ E) : Prop where
  keyed : h.Keyed
  numbered : h.Numbered
  table : ∀ (o : Nat) (s : SubscriptionImpl μ E), h.objs[o]? = some s → s.Ended ∨
    (s.sid, o) ∈ h.subs
  closed : h.link.closed = true → ∀ (o : Nat) (s : SubscriptionImpl μ E), h.objs[o]? = some s →
    s.Ended

theorem accounted_new (pendingLimit maxOut : Nat) :
    (new pendingLimit maxOut : ProtocolHandler μ E).Accounted where
  keyed := (once_new pendingLimit maxOut).keyed
  numbered := numbered_new pendingLimit maxOut
  table := fun o s hs => by cases hs
  closed := fun hclosed => by cases hclosed

/-- The keys are those of some writes. -/
theorem Accounted.of_writes {sids : List Nat} (ha : h.Accounted) (hw : Writes .all h sids h')
    (htable : ∀ (o : Nat) (s : SubscriptionImpl μ E), h'.objs[o]? = some s → s.Ended ∨
      (s.sid, o) ∈ h'.subs)
    (hclosed : h'.link.closed = true → ∀ (o : Nat) (s : SubscriptionImpl μ E),
      h'.objs[o]? = some s → s.Ended) : h'.Accounted :=
  ⟨hw.keyed ha.keyed, hw.numbered ha.numbered, htable, hclosed⟩

/-- An object stays ended. -/
theorem Accounted.setObj (ha : h.Accounted) (hs : h.objs[o]? = some s) (hsid : s'.sid = s.sid)
    (hended : s.Ended → s'.Ended) : (h.setObj o s').Accounted where
  keyed := ha.keyed.setObj hs hsid
  numbered := ha.numbered.setObj hs hsid
  table := by
    intro i x hx
    rcases setObj_cases hs hx with ⟨rfl, rfl⟩ | ⟨-, hx⟩
    · rw [hsid]
      exact (ha.table i s hs).imp_left hended
    · exact ha.table i x hx
  closed := by
    intro hclosed i x hx
    rcases setObj_cases hs hx with ⟨rfl, rfl⟩ | ⟨-, hx⟩
    · exact hended (ha.closed hclosed i s hs)
    · exact ha.closed hclosed i x hx

/-- The link stays open, or closed; drains do not matter. -/
theorem Accounted.link (ha : h.Accounted) {l : Link} {drains : List (Nat × Nat)}
    (hclosed : l.closed = true → h.link.closed = true) :
    ({ h with link := l, drains := drains } : ProtocolHandler μ E).Accounted where
  keyed := ⟨ha.keyed.mem, ha.keyed.nodup, ha.keyed.le⟩
  numbered := ⟨ha.numbered.nodup, ha.numbered.le⟩
  table := ha.table
  closed hl := ha.closed (hclosed hl)

theorem Accounted.sendCommand (ha : h.Accounted) (c : Command) : (h.sendCommand c).Accounted :=
  ha.link fun hclosed => (Link.closed_sendCommand h.link c).symm.trans hclosed

/-- An object leaves the table, and it has ended. -/
theorem Accounted.cancel (ha : h.Accounted) (hs : h.objs[o]? = some s) :
    (h.cancel o s).Accounted := by
  refine ha.of_writes (writes_cancel trivial hs) ?_ ?_
  · intro i x hx
    rcases setObj_cases hs hx with ⟨rfl, rfl⟩ | ⟨hne, hx⟩
    · exact .inl s.ended_close
    · -- its entry is another one
      have hkept : x.sid ≠ s.sid := fun heq => hne (ha.numbered.eq_of_sid hx hs heq)
      exact (ha.table i x hx).imp_right fun hmem => mem_delete.2 ⟨hmem, hkept⟩
  · intro hclosed i x hx
    rcases setObj_cases hs hx with ⟨rfl, rfl⟩ | ⟨-, hx⟩
    · exact s.ended_close
    · exact ha.closed hclosed i x hx

theorem Accounted.unsub (ha : h.Accounted) (hs : h.objs[o]? = some s) (max : Option Nat) :
    (h.unsub o s max).Accounted := by
  rw [ProtocolHandler.unsub]
  split
  · exact ha
  · exact (ha.sendCommand _).setObj hs (sid_unsub s max false) id

theorem Accounted.unsubscribe (ha : h.Accounted) (o : Nat) (max : Option Nat) :
    (h.unsubscribe o max).Accounted := by
  rw [ProtocolHandler.unsubscribe]
  split
  · exact ha
  · next s hs =>
    simp only
    split
    · exact (ha.unsub hs max).cancel (unsub_getElem? hs max)
    · exact ha.unsub hs max

theorem Accounted.checkMax (ha : h.Accounted) (o : Nat) : (h.checkMax o).Accounted := by
  rw [ProtocolHandler.checkMax]
  split
  · exact ha
  · split
    · exact ha.unsubscribe o none
    · exact ha

/-- A subscription that is made is in the table. -/
theorem Accounted.subscribe (ha : h.Accounted) (hopen : h.link.closed = false)
    (opts : SubscriptionOptions) : (h.subscribe opts).Accounted := by
  have hadd : ∀ s : SubscriptionImpl μ E, s.sid = h.sidCounter + 1 → s.received = 0 →
      ({ h with
        sidCounter := h.sidCounter + 1
        objs := h.objs ++ [s]
        subs :=
          h.subs ++ [(h.sidCounter + 1, h.objs.length)] } : ProtocolHandler μ E).Accounted := by
    intro s hsid hreceived
    refine ha.of_writes (Write.add hsid hreceived trivial).writes ?_ fun hclosed => ?_
    · intro i x hx
      by_cases hlt : i < h.objs.length
      · have hold : h.objs[i]? = some x := (List.getElem?_append_left hlt).symm.trans hx
        exact (ha.table i x hold).imp_right fun hmem => List.mem_append_left _ hmem
      · right
        have hnew := (List.getElem?_append_right (Nat.le_of_not_lt hlt)).symm.trans hx
        obtain ⟨hzero, rfl⟩ : i - h.objs.length = 0 ∧ s = x := by
          rcases hn : i - h.objs.length with - | n
          · rw [hn] at hnew
            exact ⟨rfl, Option.some.inj hnew⟩
          · rw [hn] at hnew
            cases hnew
        rw [hsid, show i = h.objs.length by omega]
        exact List.mem_append_right _ (List.mem_singleton_self _)
    · rw [hopen] at hclosed
      cases hclosed
  rw [ProtocolHandler.subscribe]
  split
  · exact ((hadd _ rfl rfl).sendCommand _).unsubscribe _ _
  · exact (hadd _ rfl rfl).sendCommand _

/-- An object that moves is in the table. -/
theorem Accounted.resub (ha : h.Accounted) (o : Nat) (subject : String) :
    (h.resub o subject).Accounted := by
  cases hs : h.objs[o]? with
  | none =>
      simp only [ProtocolHandler.resub, hs]
      exact ha
  | some s =>
      cases hopen : h.link.closed with
      | true =>
          simp only [ProtocolHandler.resub, hs, hopen, if_true]
          exact ha
      | false =>
          have hw := writes_resub_open (S := .all) trivial hs hopen subject
          have hunsub : h.unsub o s none = (h.sendCommand (.unsub s.sid none)).setObj o
              (s.unsub none false) := by
            rw [ProtocolHandler.unsub, hopen, if_neg Bool.false_ne_true]
            rfl
          simp only [ProtocolHandler.resub, hs, hopen, if_neg Bool.false_ne_true, hunsub] at hw ⊢
          refine ha.of_writes hw ?_ fun hclosed => ?_
          · intro i x hx
            have hobj : (h.sendCommand (.unsub s.sid none)).objs[o]? = some s := hs
            rcases setObj_cases (setObj_self hobj) hx with ⟨rfl, rfl⟩ | ⟨hne, hx⟩
            · exact .inr (List.mem_append_right _ (List.mem_singleton_self _))
            · have hold : h.objs[i]? = some x := (setObj_ne hne).symm.trans hx
              have hkept : x.sid ≠ s.sid := fun heq => hne (ha.numbered.eq_of_sid hold hs heq)
              refine (ha.table i x hold).imp_right fun hmem => List.mem_append_left _ ?_
              exact mem_delete.2 ⟨hmem, hkept⟩
          · have hstill : (h.link.sendCommand (.unsub s.sid none)).closed = true :=
              (Link.closed_sendCommand _ _).symm.trans hclosed
            rw [Link.closed_sendCommand, hopen] at hstill
            cases hstill

theorem Accounted.drainSub (ha : h.Accounted) (o : Nat) : (h.drainSub o).Accounted := by
  rw [ProtocolHandler.drainSub]
  split
  · exact ha
  · next s hs =>
    split
    · exact ha
    · have hset : (h.setObj o { s with draining := true }).Accounted := ha.setObj hs rfl id
      have hunsub := hset.unsub (setObj_self hs) none
      exact hunsub.link fun hclosed => (Link.closed_flush _).symm.trans hclosed

theorem Accounted.drained (ha : h.Accounted) (o d : Nat) : (h.drained o d).Accounted := by
  rw [ProtocolHandler.drained]
  split
  · exact ha
  · next s hs => exact (ha.cancel hs).link id

/-- The objects of a table are closed, and the others stay as they are. -/
theorem foldl_close {subs : List (Nat × Nat)} {objs : List (SubscriptionImpl μ E)} {i : Nat}
    (hs : (subs.foldl (fun objs x => objs.modify x.2 SubscriptionImpl.close) objs)[i]? = some s') :
    ∃ s, objs[i]? = some s ∧ s'.sid = s.sid ∧ (s.Ended ∨ i ∈ subs.map Prod.snd → s'.Ended) := by
  induction subs generalizing objs with
  | nil => exact ⟨s', hs, rfl, fun h => h.elim id fun hmem => by cases hmem⟩
  | cons x subs ih =>
      obtain ⟨s₁, hs₁, hsid, hended⟩ := ih hs
      rw [List.getElem?_modify] at hs₁
      obtain ⟨s, hold, rfl⟩ := Option.map_eq_some_iff.1 hs₁
      refine ⟨s, hold, ?_, fun h => hended ?_⟩
      · rw [hsid]
        split
        · exact sid_close s
        · rfl
      · split
        · exact .inl s.ended_close
        · next hne =>
          refine h.imp_right fun hmem => ?_
          exact (List.mem_cons.1 hmem).resolve_left fun heq => hne heq.symm

/-- **The close of the table** ends all subscriptions. -/
theorem Accounted.closeSubscriptions (ha : h.Accounted)
    (hs : h.closeSubscriptions.objs[o]? = some s') : s'.Ended := by
  obtain ⟨s, hold, -, hended⟩ := foldl_close hs
  exact hended ((ha.table o s hold).imp_right fun hmem => List.mem_map_of_mem (f := Prod.snd) hmem)

theorem Accounted.setLink (ha : h.Accounted) (l : Link) : (h.setLink l).Accounted := by
  have hw := writes_setLink (S := .all) h l
  rw [ProtocolHandler.setLink] at hw ⊢
  split at hw
  · next hcloses =>
    rw [if_pos hcloses]
    exact ha.of_writes hw (fun o s hs => .inl (ha.closeSubscriptions hs)) fun _ o s hs =>
      ha.closeSubscriptions hs
  · next hopen =>
    rw [if_neg hopen]
    refine ha.link fun hclosed => ?_
    rw [hclosed, Bool.true_and, Bool.not_eq_true', Bool.not_eq_false] at hopen
    exact hopen

/-- **A call.** The connection is open where it subscribes. -/
theorem Accounted.call (ha : h.Accounted) {c : Call}
    (hopen : ∀ opts, c = .subscribe opts → h.link.closed = false) : (h.call c).Accounted := by
  cases c with
  | subscribe opts => exact ha.subscribe (hopen opts rfl) opts
  | unsubscribe o max => exact ha.unsubscribe o max
  | drain o => exact ha.drainSub o
  | resub o subject => exact ha.resub o subject
  | publish proto payload => exact ha.sendCommand _
  | flush => exact ha.link fun hclosed => (Link.closed_flush _).symm.trans hclosed
  | reconnect =>
      rw [ProtocolHandler.call]
      split
      · exact ha.link id
      · exact ha
  | close => exact ha.setLink _

/-- **The events** that are not calls, messages and timers. -/
theorem accounted_step {h h' : Operations.Handler} {e : Event Mux.Msg Mux.RequestError}
    (ha : h.Accounted) (he : Operations.Client.isInner e = true) (hstep : h.step e = some h') :
    h'.Accounted := by
  cases step_of_eq hstep with
  | call | message | timeout => cases he
  | drained o d => exact ha.drained o d
  | next o s s' hs hnext =>
      refine ha.setObj hs ?_ fun hended => hended.next hnext
      exact congrArg Prod.fst (SubscriptionImpl.registration_next hnext)
  | stop o s err hs => exact ha.setObj hs rfl fun _ => s.ended_stop err
  | leave o s hs => exact ha.setObj hs rfl fun _ => .inl (SubscriptionImpl.ended_finish s.iter none)
  | dialDone l _ hl =>
      cases Link.step_of_eq hl with
      | dialDone => exact ha.link fun hclosed => (Link.closed_dialDone _ _).symm.trans hclosed
  | link e l _ hl => exact ha.setLink l

end ProtocolHandler

/-! ## The drain -/

namespace Operations.Client

/-- No subscription of the table is closed: `drain()` of each is accepted. -/
def drainable (c : Client) : Bool :=
  c.handler.subs.all fun x => !(c.handler.objs[x.2]?).any SubscriptionImpl.isClosed

/-- The dial is one that rejects the flush at the end of the drain. -/
def cuts (c : Client) : Event → Bool
  | .handler (.link .prepare) =>
      match c.drain with
      | .flush d => (c.handler.link.outcome d).isNone && !c.handler.link.closed
      | _ => false
  | _ => false

/-- The calls of the callback of object `o`, where it is that of a user. -/
def userCalls (c : Client) (o : Nat) (s : Sub) (ops : List Operation) : List Operation :=
  if o ∈ c.muxSubs then []
  else if c.isNoMux o then []
  else if s.noIterator then ops
  else []

/-- The calls of an event, with the state in front of them. -/
def callsOf (c : Client) : Event → Client × List Operation
  | .call op => (c, [op])
  | .message sid _ ops =>
      match c.handler.get sid with
      | none => (c, [])
      | some o =>
          match c.handler.objs[o]? with
          | none => (c, [])
          -- the message is counted before the callback runs
          | some s => ({ c with handler := c.handler.setObj o s.receive }, c.userCalls o s ops)
  | .error ctx ops =>
      match c.named ctx with
      | none => (c, [])
      | some (_, o) =>
          match c.handler.objs[o]? with
          | none => (c, [])
          | some s => (c, c.userCalls o s ops)
  | .timeout o ops =>
      match c.handler.objs[o]? with
      | none => (c, [])
      | some s =>
          ({ c with handler := c.handler.setObj o { s.stop (some .timeout) with timer := false } },
            c.userCalls o s ops)
  | _ => (c, [])

section

variable (nuid : Nat → String) (inboxPrefix : String)

/-- Where `drain()` is called, and not refused, no subscription of the table is closed. -/
def drainables : Client → List Operation → Bool
  | _, [] => true
  | c, op :: ops =>
      (op ≠ .drain || c.refuses .drain || c.drainable) &&
        drainables (c.call nuid inboxPrefix op) ops

/-- Nothing that the drain waits for is rejected in the event. -/
def undisturbed (c : Client) (e : Event) : Bool :=
  drainables nuid inboxPrefix (c.callsOf e).1 (c.callsOf e).2 && !c.cuts e

end

variable {nuid : Nat → String} {inboxPrefix : String} {c c' : Client} {h : Handler}
  {P : Link.Event → Prop}
  {o : Nat} {s : Sub}

/-- What holds while the drain is on its way. -/
def OnItsWay (c : Client) : Prop :=
  match c.drain with
  | .idle | .subs _ => c.noMorePublishing = false
  | .flush d =>
      c.handler.link.Foreign d ∧
        (c.handler.link.outcome d = some .rejected → c.handler.link.closed = true)
  | .close | .failed | .resolved => c.handler.link.closed = true

/-- The invariant: there is one drain at most, and what it waited for closed the connection, or
will. -/
structure Sound (c : Client) : Prop where
  accounted : c.handler.Accounted
  owned : c.handler.link.Owned
  draining : c.drain ≠ .idle → c.draining = true
  drain : c.OnItsWay

theorem sound_new (pendingLimit maxOut : Nat) : (new pendingLimit maxOut).Sound where
  accounted := ProtocolHandler.accounted_new pendingLimit maxOut
  owned := Link.owned_new pendingLimit maxOut
  draining h := absurd rfl h
  drain := rfl

/-! ### What leaves the drain where it is -/

/-- The drain stays where it is, and the subscriptions are accounted for. -/
structure Leaves (c c' : Client) : Prop where
  drain : c'.drain = c.drain
  draining : c'.draining = c.draining
  noMorePublishing : c'.noMorePublishing = c.noMorePublishing
  handler : c.handler.Accounted → c'.handler.Accounted

theorem Leaves.refl (c : Client) : Leaves c c := ⟨rfl, rfl, rfl, id⟩

theorem Leaves.trans {c'' : Client} (hl : Leaves c c') (hl' : Leaves c' c'') : Leaves c c'' where
  drain := hl'.drain.trans hl.drain
  draining := hl'.draining.trans hl.draining
  noMorePublishing := hl'.noMorePublishing.trans hl.noMorePublishing
  handler ha := hl'.handler (hl.handler ha)

theorem OnItsWay.follows (hw : c.OnItsWay) (hl : Leaves c c')
    (hlink : c.handler.link.Runs P c'.handler.link)
    (hdials : P .prepare → ∀ d, c.drain = .flush d → c.handler.link.outcome d = none →
      c.handler.link.closed = true) : c'.OnItsWay := by
  unfold OnItsWay at hw ⊢
  rw [hl.drain]
  cases hdrain : c.drain with
  | idle | subs os =>
      rw [hdrain] at hw
      exact hl.noMorePublishing.trans hw
  | close | failed | resolved =>
      rw [hdrain] at hw
      exact hlink.closed hw
  | flush d =>
      rw [hdrain] at hw
      obtain ⟨hforeign, hrejected⟩ := hw
      refine ⟨hlink.foreign hforeign, fun hout => ?_⟩
      cases hbefore : c.handler.link.outcome d with
      | some x =>
          obtain rfl : x = .rejected := Option.some.inj ((hlink.outcome hbefore).symm.trans hout)
          exact hlink.closed (hrejected hbefore)
      | none =>
          by_cases hdial : P .prepare
          · exact hlink.closed (hdials hdial d hdrain hbefore)
          · have hquiet := hlink.rejected hdial hforeign hout
            rw [hbefore] at hquiet
            cases hquiet

theorem Sound.follows (hs : c.Sound) (hl : Leaves c c') (hf : Follows nuid inboxPrefix P c c')
    (hdials : P .prepare → ∀ d, c.drain = .flush d → c.handler.link.outcome d = none →
      c.handler.link.closed = true) : c'.Sound where
  accounted := hl.handler hs.accounted
  owned := hf.handler.owned hs.owned
  draining hne := hl.draining.trans (hs.draining (hl.drain ▸ hne))
  drain := hs.drain.follows hl hf.handler.link hdials

/-- Without a dial. -/
theorem Sound.stays (hs : c.Sound) (hl : Leaves c c')
    (hf : Follows nuid inboxPrefix (fun _ => False) c c') : c'.Sound :=
  hs.follows hl hf False.elim

theorem leaves_handler (ha : c.handler.Accounted → h.Accounted) :
    Leaves c { c with handler := h } :=
  ⟨rfl, rfl, rfl, ha⟩

theorem leaves_mux (mux : Mux.MuxSubscription) : Leaves c { c with mux := mux } :=
  ⟨rfl, rfl, rfl, id⟩

theorem leaves_setHandler (ha : c.handler.Accounted → h.Accounted) : Leaves c (c.setHandler h) := by
  rw [setHandler]
  split <;> exact ⟨rfl, rfl, rfl, ha⟩

theorem leaves_publish (c : Client) (pub : Option (String × List UInt8)) :
    Leaves c (c.publish pub) := by
  cases pub with
  | none => exact .refl c
  | some pub => exact leaves_handler fun ha => ha.sendCommand _

theorem leaves_subscribe (hopen : c.handler.link.closed = false) (opts : SubscriptionOptions)
    (subject : String) :
    Leaves c (c.subscribe opts subject) := ⟨rfl, rfl, rfl, fun ha => ha.subscribe hopen opts⟩

theorem leaves_request (hopen : c.handler.link.closed = false) (q : Mux.NewRequest) (proto : String)
    (payload : List UInt8) : Leaves c (c.request nuid inboxPrefix q proto payload) := by
  rw [request]
  refine Leaves.trans ?_ (leaves_publish _ _)
  split
  · exact leaves_mux _
  · exact ⟨rfl, rfl, rfl, fun ha =>
      ha.subscribe hopen ⟨(c.mux.request nuid inboxPrefix q).mux.getD "", none, none, false, false⟩⟩

theorem leaves_requestNoMux (hopen : c.handler.link.closed = false) (subject : String)
    (reply : Option String) (pub : Option (String × List UInt8)) :
    Leaves c (c.requestNoMux nuid inboxPrefix subject reply pub) := by
  have hsub : ∀ (c' : Client) (inbox : String), c'.handler.link.closed = false → Leaves c'
      { (c'.subscribe ⟨inbox, none, some 1, true, true⟩ subject).publish pub with
        noMux := ((c'.subscribe ⟨inbox, none, some 1, true, true⟩ subject).publish pub).noMux ++
          [⟨c'.handler.objs.length, pub.isSome, none⟩] } := by
    intro c' inbox hopen'
    exact ((leaves_subscribe hopen' _ subject).trans (leaves_publish _ pub)).trans
      ⟨rfl, rfl, rfl, id⟩
  cases reply with
  | some inbox => exact hsub c inbox hopen
  | none => exact Leaves.trans (leaves_mux _) (hsub _ _ hopen)

theorem leaves_requestManyNoMux (hopen : c.handler.link.closed = false) (subject : String)
    (pub : Option (String × List UInt8)) :
    Leaves c (c.requestManyNoMux nuid inboxPrefix subject pub) := by
  have hinbox : Leaves c (c.createInbox nuid inboxPrefix).2 := leaves_mux _
  have hsubscribe := leaves_subscribe (c := (c.createInbox nuid inboxPrefix).2) hopen
    ⟨(c.createInbox nuid inboxPrefix).1, none, none, true, false⟩ subject
  exact hinbox.trans (hsubscribe.trans (leaves_publish _ pub))

/-- A call that is refused does nothing, and any other but `drain()` leaves the drain where it
is. -/
theorem leaves_call {op : Operation} (hop : op ≠ .drain) :
    Leaves c (c.call nuid inboxPrefix op) := by
  unfold Client.call
  split
  · exact .refl c
  · next hrefuses =>
    cases op with
    | drain => exact absurd rfl hop
    | request q proto payload =>
        refine leaves_request ?_ q proto payload
        simp only [refuses, Bool.or_eq_true, not_or, Bool.not_eq_true] at hrefuses
        exact hrefuses.1.1
    | requestNoMux subject reply pub =>
        refine leaves_requestNoMux ?_ subject reply pub
        simp only [refuses, Bool.or_eq_true, not_or, Bool.not_eq_true] at hrefuses
        exact hrefuses.1.1
    | requestManyNoMux subject pub =>
        refine leaves_requestManyNoMux ?_ subject pub
        simp only [refuses, Bool.or_eq_true, not_or, Bool.not_eq_true] at hrefuses
        exact hrefuses.1.1
    | handler call =>
        cases call with
        | flush =>
            exact ⟨rfl, rfl, rfl,
              fun ha => ha.link fun hclosed => (Link.closed_flush _).symm.trans hclosed⟩
        | subscribe opts =>
            refine leaves_setHandler fun ha => ha.call fun _ _ => ?_
            simp only [refuses, Bool.or_eq_true, not_or, Bool.not_eq_true] at hrefuses
            exact hrefuses.1
        | unsubscribe | drain | resub | publish | reconnect | close =>
            exact leaves_setHandler fun ha => ha.call fun _ heq => by cases heq

/-! ### The drain itself -/

theorem Sound.drainAll (hs : c.Sound) (hrefuses : c.refuses .drain = false)
    (hdrainable : c.drainable = true) : c.drainAll.Sound := by
  have hf : Follows (fun _ => "") "" (fun _ => False) c c.drainAll := follows_drainAll c
  simp only [refuses, Bool.or_eq_false_iff] at hrefuses
  have hidle : c.drain = .idle := by
    by_contra hne
    rw [hs.draining hne] at hrefuses
    cases hrefuses.2
  have hfold : ∀ (os : List Nat) (h : Handler), h.Accounted →
      (os.foldl ProtocolHandler.drainSub h).Accounted := by
    intro os
    induction os with
    | nil => exact fun h ha => ha
    | cons o os ih => exact fun h ha => ih (h.drainSub o) (ha.drainSub o)
  refine ⟨hfold _ _ hs.accounted, hf.handler.owned hs.owned, fun _ => rfl, ?_⟩
  have hnone : ((c.handler.subs.map Prod.snd).any fun o => (c.handler.objs[o]?).any (·.isClosed)) =
      false := by
    rw [List.any_eq_false]
    intro o ho
    obtain ⟨x, hx, rfl⟩ := List.mem_map.1 ho
    have hopen := List.all_eq_true.1 hdrainable x hx
    rw [Bool.not_eq_true'] at hopen
    rw [Bool.not_eq_true]
    exact hopen
  have hpublishing : c.noMorePublishing = false := by
    have hdrain := hs.drain
    rw [OnItsWay, hidle] at hdrain
    exact hdrain
  unfold OnItsWay Client.drainAll
  simp only [hnone, if_neg Bool.false_ne_true]
  exact hpublishing

theorem closed_close (c : Client) : c.close.handler.link.closed = true := by
  have hlink : (c.handler.call .close).link.closed = true := by
    show (c.handler.setLink c.handler.link.close).link.closed = true
    rw [ProtocolHandler.link_setLink]
    exact Link.closed_close _
  rw [close, setHandler]
  split <;> exact hlink

/-- **The continuations of the drain.** -/
theorem Sound.drainThen (hs : c.Sound) (hthen : c.drainThen = some c') : c'.Sound := by
  have hf : Follows (fun _ => "") "" (fun _ => False) c c' := follows_drainThen hthen
  have howned := hf.handler.owned hs.owned
  have hdraining := hs.draining
  have hdrain := hs.drain
  unfold OnItsWay at hdrain
  unfold Client.drainThen at hthen
  split at hthen
  · cases hthen
  · cases hthen
  · next os hsubs =>
    rw [hsubs] at hdraining
    obtain ⟨-, hflush⟩ := Option.ite_none_left_eq_some.1 hthen
    cases hflush
    refine ⟨hs.accounted.link fun hclosed => (Link.closed_flush _).symm.trans hclosed, howned,
      fun _ => hdraining fun heq => (by cases heq), Link.foreign_flush hs.owned,
      fun hrejected => ?_⟩
    -- the new deferred is not settled
    have hfresh : c.handler.link.flush.outcome c.handler.link.deferreds.created = none := by
      rw [Link.outcome_flush]
      exact c.handler.link.deferreds.fresh _ (Nat.le_refl _)
    rw [hfresh] at hrejected
    cases hrejected
  · next d hflush =>
    rw [hflush] at hdrain hdraining
    have hbusy : c.draining = true := hdraining fun heq => by cases heq
    split at hthen
    · cases hthen
      have hl : Leaves c c.close := leaves_setHandler fun ha => ha.call fun _ heq => by cases heq
      exact ⟨hl.handler hs.accounted, howned, fun _ => hl.draining.trans hbusy, closed_close c⟩
    · next hrejected =>
      cases hthen
      exact ⟨hs.accounted, howned, fun _ => hbusy, hdrain.2 hrejected⟩
    · cases hthen
  · next hclose =>
    rw [hclose] at hdrain hdraining
    cases hthen
    exact ⟨hs.accounted, howned, fun _ => hdraining fun heq => (by cases heq), hdrain⟩
  · next hfailed =>
    rw [hfailed] at hdrain hdraining
    cases hthen
    exact ⟨hs.accounted, howned, fun _ => hdraining fun heq => (by cases heq), hdrain⟩

/-! ### Over all runs -/

theorem Sound.call (hs : c.Sound) {op : Operation}
    (hok : (op ≠ .drain || c.refuses .drain || c.drainable) = true) :
    (c.call nuid inboxPrefix op).Sound := by
  by_cases hop : op = .drain
  · subst hop
    unfold Client.call
    split
    · exact hs
    · next hrefuses =>
      refine hs.drainAll (Bool.not_eq_true _ ▸ hrefuses) ?_
      simpa [hrefuses] using hok
  · exact hs.stays (leaves_call hop) (follows_call c op)

theorem Sound.calls (hs : c.Sound) {ops : List Operation}
    (hok : drainables nuid inboxPrefix c ops = true) : (c.calls nuid inboxPrefix ops).Sound := by
  induction ops generalizing c with
  | nil => exact hs
  | cons op ops ih =>
      obtain ⟨hhere, hlater⟩ := Bool.and_eq_true_iff.1 hok
      exact ih (hs.call hhere) hlater

theorem Sound.handler (hs : c.Sound) (ha : c.handler.Accounted → h.Accounted)
    (hm : c.handler.Moves (fun _ => False) h) : ({ c with handler := h } : Client).Sound := by
  have hf : Follows (fun _ => "") "" (fun _ => False) c { c with handler := h } :=
    follows_handler hm rfl rfl
  exact hs.stays (leaves_handler ha) hf

theorem Sound.setObj (hs : c.Sound) {s' : Sub} (hobj : c.handler.objs[o]? = some s)
    (hsid : s'.sid = s.sid) (hended : s.Ended → s'.Ended) :
    ({ c with handler := c.handler.setObj o s' } : Client).Sound :=
  hs.handler (fun ha => ha.setObj hobj hsid hended) (ProtocolHandler.moves_setObj _ o s')

theorem Sound.callback (hs : c.Sound) (hobj : c.handler.objs[o]? = some s) (m : Mux.Msg)
    {ops : List Operation} (hok : drainables nuid inboxPrefix c (c.userCalls o s ops) = true) :
    (c.callback nuid inboxPrefix o s m ops).Sound := by
  rw [userCalls] at hok
  rw [Client.callback]
  split
  · have hf : Follows nuid inboxPrefix (fun _ => False) c { c with mux := c.mux.dispatcher m } :=
      follows_dispatcher c m
    exact hs.stays (leaves_mux _) hf
  · next hmux =>
    rw [if_neg hmux] at hok
    split
    · exact ⟨hs.accounted, hs.owned, hs.draining, hs.drain⟩
    · next hno =>
      rw [if_neg hno] at hok
      split
      · next huser =>
        rw [if_pos huser] at hok
        exact hs.calls hok
      · exact hs.setObj hobj (congrArg Prod.fst (SubscriptionImpl.registration_push s m)) fun h =>
          h.push m

theorem Sound.callbackError (hs : c.Sound)
    (hobj : s.noIterator = false → c.handler.objs[o]? = some s) (err : Mux.RequestError)
    {ops : List Operation} (hok : drainables nuid inboxPrefix c (c.userCalls o s ops) = true) :
    (c.callbackError nuid inboxPrefix o s err ops).Sound := by
  rw [userCalls] at hok
  rw [Client.callbackError]
  split
  · exact hs
  · next hmux =>
    rw [if_neg hmux] at hok
    split
    · have hunsubscribe := hs.handler (fun ha => ha.unsubscribe o none)
        (ProtocolHandler.moves_unsubscribe c.handler o none)
      exact ⟨hunsubscribe.accounted, hunsubscribe.owned, hunsubscribe.draining, hunsubscribe.drain⟩
    · next hno =>
      rw [if_neg hno] at hok
      split
      · next huser =>
        rw [if_pos huser] at hok
        exact hs.calls hok
      · next huser =>
        refine hs.setObj (hobj (Bool.not_eq_true _ ▸ huser)) ?_ fun _ =>
          SubscriptionImpl.ended_stop _ _
        exact congrArg Prod.fst (SubscriptionImpl.registration_stop s.cancelTimeout (some err))

theorem Sound.processMsg (hs : c.Sound) {sid : Nat} {m : Mux.Msg} {ops : List Operation}
    (hok : drainables nuid inboxPrefix (c.callsOf (.message sid m ops)).1
      (c.callsOf (.message sid m ops)).2 =
      true) : (c.processMsg nuid inboxPrefix sid m ops).Sound := by
  simp only [callsOf] at hok
  rw [Client.processMsg]
  split
  · exact hs
  · next o ho =>
    split
    · exact hs
    · next s hobj =>
      simp only [ho, hobj] at hok
      have hreceive : ({ c with handler := c.handler.setObj o s.receive } : Client).Sound :=
        hs.setObj hobj rfl id
      have hcallback := hreceive.callback (ProtocolHandler.setObj_self hobj) m hok
      exact hcallback.handler (fun ha => ha.checkMax o) (ProtocolHandler.moves_checkMax _ o)

theorem Sound.handleError (hs : c.Sound) {ctx : PermissionContext} {ops : List Operation}
    (hok : drainables nuid inboxPrefix (c.callsOf (.error ctx ops)).1
      (c.callsOf (.error ctx ops)).2 = true) : (c.handleError nuid inboxPrefix ctx ops).Sound := by
  simp only [callsOf] at hok
  rw [Client.handleError]
  split
  · exact hs
  · next sid o hnamed =>
    rw [hnamed] at hok
    split
    · exact hs
    · next s hobj =>
      simp only [hobj] at hok
      have hcallback := hs.callbackError (fun _ => hobj) (.permissions ctx) hok
      simp only
      split
      · next s' hobj' =>
        exact hcallback.handler (fun ha => ha.cancel hobj') (ProtocolHandler.moves_cancel _ o s')
      · exact hcallback

theorem Sound.timeout (hs : c.Sound) (hobj : c.handler.objs[o]? = some s) {ops : List Operation}
    (hok : drainables nuid inboxPrefix (c.callsOf (.timeout o ops)).1
      (c.callsOf (.timeout o ops)).2 = true) : (c.timeout nuid inboxPrefix o s ops).Sound := by
  simp only [callsOf, hobj] at hok
  have hstop :
      ({ c with handler := c.handler.setObj o { s.stop (some .timeout) with timer := false } } :
      Client).Sound :=
    hs.setObj hobj rfl fun _ => s.ended_stop (some .timeout)
  rw [Client.timeout]
  split
  · next huser =>
    refine hstop.callbackError (fun hnot => ?_) .timeout hok
    rw [huser] at hnot
    cases hnot
  · exact hstop

/-- **One event** that rejects nothing. -/
theorem Sound.step {e : Event} (hs : c.Sound) (hok : c.undisturbed nuid inboxPrefix e = true)
    (hstep : c.step nuid inboxPrefix e = some c') : c'.Sound := by
  obtain ⟨hcalls, hcuts⟩ := Bool.and_eq_true_iff.1 hok
  cases e with
  | call op =>
      cases hstep
      -- one call is a list of calls
      have hone : (c.calls nuid inboxPrefix [op]).Sound := hs.calls hcalls
      exact hone
  | message sid m ops =>
      cases hstep
      exact hs.processMsg hcalls
  | error ctx ops =>
      cases hstep
      have herror : (c.handleError nuid inboxPrefix ctx ops).Sound := hs.handleError hcalls
      exact ⟨herror.accounted, herror.owned, herror.draining, herror.drain⟩
  | timeout o ops =>
      simp only [Client.step] at hstep
      split at hstep
      · next s hobj =>
        obtain ⟨-, htimeout⟩ := Option.ite_none_right_eq_some.1 hstep
        cases htimeout
        exact hs.timeout hobj hcalls
      · cases hstep
  | requestTimer i =>
      obtain ⟨mux, -, rfl⟩ := Option.map_eq_some_iff.1 hstep
      exact ⟨hs.accounted, hs.owned, hs.draining, hs.drain⟩
  | requestCancel i err =>
      cases hstep
      exact ⟨hs.accounted, hs.owned, hs.draining, hs.drain⟩
  | drainThen => exact hs.drainThen hstep
  | handler e =>
      have hf := follows_step hstep
      obtain ⟨he, hhandler⟩ := Option.ite_none_right_eq_some.1 hstep
      obtain ⟨h, hh, rfl⟩ := Option.map_eq_some_iff.1 hhandler
      refine hs.follows (leaves_setHandler fun ha => ProtocolHandler.accounted_step ha he hh) hf ?_
      rintro ⟨e', he', hdrives⟩ d hflush hnone
      obtain rfl : e = e' := Event.handler.inj he'
      -- only a new dial cuts the flushes that a drain waits for
      obtain rfl : e = .link .prepare := hdrives.resolve_right fun h => by
        obtain ⟨subs, hsubs⟩ := h.2
        cases hsubs
      simpa [cuts, hflush, hnone] using hcuts

/-- **The drain of a connection closes it**, in all runs in which nothing that it waits for is
rejected: when its promise resolves the connection is closed and its subscriptions have ended, and
where nothing can be published any more the connection is closed, or will be when its flush is
answered. -/
theorem drain_closes {es : List Event} {pendingLimit maxOut : Nat}
    (hrun : run (step nuid inboxPrefix) (new pendingLimit maxOut) es = some c)
    (hok : Meets (step nuid inboxPrefix) (fun c e => c.undisturbed nuid inboxPrefix e = true)
      (new pendingLimit maxOut) es) :
    (c.drain = .resolved → c.handler.link.closed = true ∧
      ∀ (o : Nat) (s : Sub), c.handler.objs[o]? = some s → s.Ended) ∧
    (c.noMorePublishing = true → c.handler.link.closed = true ∨
      ∃ d, c.drain = .flush d ∧ c.handler.link.outcome d ≠ some .rejected) := by
  have hs : c.Sound :=
    invariant_run_of_meets (I := Sound) (fun _ _ _ hs hok hstep => hs.step hok hstep) hrun hok
      (sound_new pendingLimit maxOut)
  have hdrain := hs.drain
  unfold OnItsWay at hdrain
  constructor
  · intro hresolved
    rw [hresolved] at hdrain
    exact ⟨hdrain, hs.accounted.closed hdrain⟩
  · intro hpublishing
    cases hc : c.drain with
    | idle | subs os =>
        rw [hc, hpublishing] at hdrain
        cases hdrain
    | flush d =>
        rw [hc] at hdrain
        by_cases hclosed : c.handler.link.closed = true
        · exact .inl hclosed
        · exact .inr ⟨d, rfl, fun hrejected => hclosed (hdrain.2 hrejected)⟩
    | close | failed | resolved =>
        rw [hc] at hdrain
        exact .inl hdrain

/-- A drain with a subscription. -/
def drained : List Event :=
  connect ++ [.call (.handler (.subscribe ⟨"a", none, none, true, false⟩)), .call .drain,
    .handler (.link .pong), .handler (.drained 0 1), .drainThen, .handler (.link .pong),
    .drainThen, .drainThen]

theorem drain_closes_drained :
    ∃ c, run (step Mux.MuxSubscription.letters "") (new 32768 2) drained = some c ∧
      c.drain = .resolved ∧ c.handler.link.closed = true ∧
      ∀ (o : Nat) (s : Sub), c.handler.objs[o]? = some s → s.Ended := by
  have hends : (run (step Mux.MuxSubscription.letters "") (new 32768 2) drained).any (fun c =>
      decide (c.drain = .resolved)) = true := by decide +kernel
  obtain ⟨c, hrun, hc⟩ := (Option.any_eq_true _ _).1 hends
  have hresolved : c.drain = .resolved := of_decide_eq_true hc
  exact ⟨c, hrun, hresolved, (drain_closes hrun (by decide +kernel)).1 hresolved⟩

/-- A subscription whose timer fired. -/
def timedOut : List Event :=
  connect ++ [.call (.handler (.subscribe ⟨"a", none, none, true, true⟩)), .timeout 0 [],
    .call .drain, .drainThen]

/-- A connection that is lost, and dialed again, in front of the last PONG. -/
def cut : List Event :=
  connect ++ [.call .drain, .drainThen, .handler (.link .disconnect),
    .handler (.link (.closedNotification true)),
    .handler (.link .prepare), .drainThen, .drainThen, .handler (.link (.info (some "\x7b\x7d"))),
    .handler (.link .pong), .handler .dialDone]

/-- The promise resolves, and the connection is open; behind the dial nothing can be published. -/
theorem not_drain_closes :
    (∃ c, run (step Mux.MuxSubscription.letters "") (new 32768 2) timedOut = some c ∧
      c.drain = .resolved ∧
        c.handler.link.connected = true ∧ c.handler.link.closed = false) ∧
      ∃ c, run (step Mux.MuxSubscription.letters "") (new 32768 2) cut = some c ∧
        c.drain = .resolved ∧ c.handler.link.connected = true ∧ c.handler.link.closed = false ∧
        c.noMorePublishing = true := by
  have htimedOut : (run (step Mux.MuxSubscription.letters "") (new 32768 2) timedOut).any (fun c =>
      decide (c.drain = .resolved ∧ c.handler.link.connected = true ∧
        c.handler.link.closed = false)) = true := by
    decide +kernel
  have hcut : (run (step Mux.MuxSubscription.letters "") (new 32768 2) cut).any (fun c =>
      decide (c.drain = .resolved ∧ c.handler.link.connected = true ∧
        c.handler.link.closed = false ∧ c.noMorePublishing = true)) = true := by decide +kernel
  obtain ⟨c, hrun, hc⟩ := (Option.any_eq_true _ _).1 htimedOut
  obtain ⟨c', hrun', hc'⟩ := (Option.any_eq_true _ _).1 hcut
  exact ⟨⟨c, hrun, of_decide_eq_true hc⟩, c', hrun', of_decide_eq_true hc'⟩

end Operations.Client

end NatsClient.Connection
