import NatsClient.Connection.PermissionText
import NatsClient.Connection.Writes
import NatsClient.Wire.Text

/-!
# Permission errors

Model of `processError` (`protocol.ts`) for permissions violations: the subscription that the error
names is looked up by its subject and its queue, its callback gets the error, and it is closed and
taken off the table. The table is that of the protocol handler; beside it stand the mux subscription
and the requests that go over it. The callback of the mux subscription is replaced by the
dispatcher, but it is one with an iterator, which nobody reads.

The lookup compares the queue that was given with the one that was read, and an empty queue is not
written on the wire. Together with the quoting of the server, with subscriptions that were stopped
and are still in the table, and with the mux subscription, whose `close` waits for its iterator,
this is when the error reaches the right one (`closes_iff`).
-/

set_option autoImplicit false

namespace NatsClient.Connection

open NatsClient.Foundation NatsClient.Iterator NatsClient.Reconnect NatsClient.Wire

/-- The handler, with its mux subscription (an object) and the objects that were one, the
`requestSubject` of the objects that have one, and the requests of `MuxSubscription` with their
tokens. `notified` and `rejected` are logs: the objects whose callback, and the requests whose
resolver, was called with an error. -/
structure Connected (μ E : Type) where
  handler : ProtocolHandler μ E
  mux : Option Nat
  muxSubs : List Nat
  requestSubjects : List (Nat × String)
  reqs : List (Nat × String)
  notified : List (Nat × E)
  rejected : List (Nat × E)

/-- What can happen: an event of the handler, a request with or without the mux subscription, or a
`-ERR`, with the calls that the callback makes. -/
inductive ConnectedEvent (μ E : Type) where
  | handler (e : ProtocolHandler.Event μ E)
  | request (token : Nat) (subject inbox : String)
  | requestNoMux (opts : SubscriptionOptions) (subject : String)
  | error (m : List UInt8) (cs : List Call)

namespace ProtocolHandler

variable {μ E : Type}

/-- `callback(err, {})` of object `o`: that of a user makes calls, and that of an iterator stops
it. -/
def callbackError (h : ProtocolHandler μ E) (o : Nat) (s : SubscriptionImpl μ E) (err : E)
    (cs : List Call) : ProtocolHandler μ E :=
  if s.noIterator then h.calls cs else h.setObj o (s.cancelTimeout.stop (some err))

/-- What `processMsg` does with a message for object `o` whose callback was replaced. -/
def receive (h : ProtocolHandler μ E) (o : Nat) : ProtocolHandler μ E :=
  match h.objs[o]? with
  | none => h
  | some s => (h.setObj o s.receive).checkMax o

/-- The first entry of the table whose object meets the test. -/
def findSub (h : ProtocolHandler μ E) (p : Nat → SubscriptionImpl μ E → Bool) :
    Option (Nat × Nat) :=
  h.subs.find? fun x =>
    match h.objs[x.2]? with
    | some s => p x.2 s
    | none => false

/-- The entry with this subject and this queue. -/
def findBy (h : ProtocolHandler μ E) (subject : String) (queue : Option String) :
    Option (Nat × Nat) :=
  h.findSub fun _ s => s.subject = subject && s.queue = queue

end ProtocolHandler

namespace Connected

variable {μ E : Type}

/-- A new connection. -/
def new (pendingLimit maxOut : Nat) : Connected μ E :=
  ⟨.new pendingLimit maxOut, none, [], [], [], [], []⟩

/-- `initMux()`, with the inbox it makes. The subscription gets its callback when it is made. -/
def initMux (c : Connected μ E) (inbox : String) : Connected μ E :=
  match c.mux with
  | some _ => c
  | none =>
      { c with
        mux := some c.handler.objs.length
        muxSubs := c.muxSubs ++ [c.handler.objs.length]
        handler := c.handler.subscribe ⟨inbox ++ "*", none, none, false, false⟩ }

/-- `request(r)`. -/
def request (c : Connected μ E) (token : Nat) (subject inbox : String) : Connected μ E :=
  let c := c.initMux inbox
  { c with reqs := c.reqs ++ [(token, subject)] }

/-- A request with `noMux`: a subscription of its own, which gets the `requestSubject`. -/
def requestNoMux (c : Connected μ E) (opts : SubscriptionOptions) (subject : String) :
    Connected μ E :=
  { c with
    handler := c.handler.subscribe opts
    requestSubjects := c.requestSubjects ++ [(c.handler.objs.length, subject)] }

/-- `callback(err, {})` of object `o`; the dispatcher finds no token in the message. -/
def callbackError (c : Connected μ E) (o : Nat) (s : SubscriptionImpl μ E) (err : E)
    (cs : List Call) : ProtocolHandler μ E :=
  if o ∈ c.muxSubs then c.handler else c.handler.callbackError o s err cs

/-- An event of the handler. Messages for the mux subscription are the dispatcher's, and nobody
iterates over it. -/
def handle (c : Connected μ E) : ProtocolHandler.Event μ E → Option (ProtocolHandler μ E)
  | .message sid v cs =>
      match c.handler.get sid with
      | none => some c.handler
      | some o =>
          some (if o ∈ c.muxSubs then c.handler.receive o else c.handler.processMsg sid v cs)
  | .next o => if o ∈ c.muxSubs then none else c.handler.step (.next o)
  | .stop o err => if o ∈ c.muxSubs then none else c.handler.step (.stop o err)
  | .leave o => if o ∈ c.muxSubs then none else c.handler.step (.leave o)
  | e => c.handler.step e

/-- What `subscriptions.handleError(err)` finds. -/
def named (c : Connected μ E) (ctx : PermissionContext) : Option (Nat × Nat) :=
  match ctx.operation with
  | .subscription => c.handler.findBy ctx.subject ctx.queue
  | .publish => c.handler.findSub fun o _ => c.requestSubjects.lookup o = some ctx.subject

/-- `subscriptions.handleError(err)`. -/
def handleError (c : Connected μ E) (err : E) (ctx : PermissionContext) (cs : List Call) :
    Connected μ E :=
  match c.named ctx with
  | none => c
  | some (_, o) =>
      match c.handler.objs[o]? with
      | none => c
      | some s =>
          let h := c.callbackError o s err cs
          let c := { c with handler := h, notified := c.notified ++ [(o, err)] }
          match h.objs[o]? with
          | some s => { c with handler := h.cancel o s }
          | none => c

/-- `muxSubscriptions.handleError(isMuxPermissionError, err)`; a resolver takes its request off the
map. -/
def handleMuxError (c : Connected μ E) (isMuxPermissionError : Bool) (err : E)
    (ctx : PermissionContext) : Connected μ E :=
  if isMuxPermissionError then
    { c with reqs := [], rejected := c.rejected ++ c.reqs.map fun r => (r.1, err) }
  else
    match ctx.operation with
    | .subscription => c
    | .publish =>
        match c.reqs.find? fun r => r.2 = ctx.subject with
        | some r =>
            { c with reqs := c.reqs.filter (·.1 ≠ r.1), rejected := c.rejected ++ [(r.1, err)] }
        | none => c

/-- The error is about the subject of the mux subscription. -/
def isMuxError (c : Connected μ E) (ctx : PermissionContext) : Bool :=
  match c.mux.bind fun o => c.handler.objs[o]? with
  | some mux => mux.subject = ctx.subject
  | none => false

section

variable (raise : NatsError → Option PermissionContext → E)

/-- `processError(m)` of a permissions violation. -/
def processError (c : Connected μ E) (m : List UInt8) (cs : List Call) : Connected μ E :=
  let (err, permissionContext) := PermissionText.toError (decode m)
  match permissionContext with
  | none => c
  | some ctx =>
      let isMuxPermissionError := c.isMuxError ctx
      let err := raise err ctx
      let c := (c.handleError err ctx cs).handleMuxError isMuxPermissionError err ctx
      -- enable it to be recreated
      if isMuxPermissionError then { c with mux := none } else c

/-- One event; `none` where it cannot happen. The other errors are a matter of the dial. -/
def step (c : Connected μ E) : ConnectedEvent μ E → Option (Connected μ E)
  | .handler e => (c.handle e).map fun h => { c with handler := h }
  | .request token subject inbox => some (c.request token subject inbox)
  | .requestNoMux opts subject => some (c.requestNoMux opts subject)
  | .error m cs =>
      if (PermissionText.toError (decode m)).1.code.isPermissionError then
        some (c.processError raise m cs)
      else none

end

/-- The error reaches the right subscription: one with the subject and the queue that are on the
wire gets it and is closed, and leaves the table; what has another subject or another queue stays,
unless the callback itself does something to it. -/
structure Closes (err : E) (subject : String) (group : Option String) (cs : List Call)
    (c c' : Connected μ E) : Prop where
  closes : ∃ sid o x x', (sid, o) ∈ c.handler.subs ∧ c.handler.objs[o]? = some x ∧
    x.subject = subject ∧ x.group = group ∧ x.isClosed = false ∧
    c'.notified = c.notified ++ [(o, err)] ∧ c'.handler.objs[o]? = some x' ∧ x'.isClosed = true ∧
    (x.noIterator = false → x'.iter.err = some err) ∧ ∀ i, (i, o) ∉ c'.handler.subs
  others : ∀ sid o x, (sid, o) ∈ c.handler.subs → c.handler.objs[o]? = some x →
    (x.subject ≠ subject ∨ x.group ≠ group) → (sid, o) ∈ (c.handler.calls cs).subs →
    (c.handler.calls cs).objs[o]? = some x →
    (sid, o) ∈ c'.handler.subs ∧ c'.handler.objs[o]? = some x

/-- When it does. The server quotes the names as they are, and the first subscription of the table
that was given this subject and this queue was not stopped before and is no mux subscription. -/
structure Answerable (quote : List Char → List Char) (subject : String) (group : Option String)
    (c : Connected μ E) : Prop where
  plainSubject : quote subject.toList = subject.toList
  plainQueue : ∀ queue, group = some queue → quote queue.toList = queue.toList
  first : ∃ sid o x, c.handler.findBy subject group = some (sid, o) ∧ c.handler.objs[o]? = some x ∧
    x.isClosed = false ∧ o ∉ c.muxSubs

end Connected

/-! ## What calls do to an object -/

namespace ProtocolHandler

variable {μ E : Type} {h h' h'' : ProtocolHandler μ E} {s s' : SubscriptionImpl μ E} {o : Nat}

/-- Objects stay, a callback stays a callback, and a sid that changes is a new one. -/
structure Follows (h h' : ProtocolHandler μ E) : Prop where
  counter : h.sidCounter ≤ h'.sidCounter
  objs : ∀ (o : Nat) (s : SubscriptionImpl μ E), h.objs[o]? = some s → ∃ s', h'.objs[o]? = some s' ∧
    s'.noIterator = s.noIterator ∧ (s'.sid = s.sid ∨ h.sidCounter < s'.sid)

theorem Follows.trans (hf : Follows h h') (hf' : Follows h' h'') : Follows h h'' where
  counter := Nat.le_trans hf.counter hf'.counter
  objs := by
    intro i s hs
    obtain ⟨s', hs', hkind, hsid⟩ := hf.objs i s hs
    obtain ⟨s'', hs'', hkind', hsid'⟩ := hf'.objs i s' hs'
    refine ⟨s'', hs'', hkind'.trans hkind, ?_⟩
    rcases hsid' with hsid' | hnew
    · rw [hsid']
      exact hsid
    · exact Or.inr (Nat.lt_of_le_of_lt hf.counter hnew)

theorem Follows.refl (h : ProtocolHandler μ E) : Follows h h where
  counter := Nat.le_refl _
  objs := fun _ s hs => ⟨s, hs, rfl, Or.inl rfl⟩

theorem follows_setObj (hs : h.objs[o]? = some s) (hkind : s'.noIterator = s.noIterator)
    (hsid : s'.sid = s.sid ∨ h.sidCounter < s'.sid) : Follows h (h.setObj o s') where
  counter := Nat.le_refl _
  objs := by
    intro i x hx
    cases Nat.decEq i o with
    | isTrue hi =>
        subst hi
        rw [hs, Option.some.injEq] at hx
        exact ⟨s', setObj_self hs, hx ▸ hkind, hx ▸ hsid⟩
    | isFalse hi => exact ⟨x, (setObj_ne hi).trans hx, rfl, Or.inl rfl⟩

section

variable {S : Scope} {sids : List Nat}

theorem Write.follows (hw : Write S h sids h') : Follows h h' := by
  cases hw with
  | other objs subs counter =>
      exact ⟨Nat.le_of_eq counter.symm, fun i x hx => ⟨x, objs ▸ hx, rfl, Or.inl rfl⟩⟩
  | change found kind sid received max => exact follows_setObj found kind (Or.inl sid)
  | limit within found kind sid received max => exact follows_setObj found kind (Or.inl sid)
  | receive within found => exact follows_setObj found rfl (Or.inl rfl)
  | release within found kind sid received =>
      have hset := follows_setObj found kind (Or.inl sid)
      exact ⟨hset.counter, hset.objs⟩
  | add sid received max =>
      refine ⟨Nat.le_succ _, fun i x hx => ⟨x, ?_, rfl, Or.inl rfl⟩⟩
      exact (List.getElem?_append_left (List.getElem?_eq_some_iff.1 hx).1).trans hx
  | resub within found kind sid received max =>
      have hset := follows_setObj found kind (Or.inr (sid ▸ Nat.lt_succ_self _))
      exact ⟨Nat.le_succ _, hset.objs⟩

/-- **Writes.** -/
theorem Writes.follows (hw : Writes S h sids h') : Follows h h' := by
  induction hw with
  | refl h => exact .refl h
  | head write _ ih => exact write.follows.trans ih

end

/-! ## What an error writes -/

/-- The error of an object, with the calls its callback makes. -/
theorem writes_callbackError {S : Scope} (hs : h.objs[o]? = some s) (err : E) {cs : List Call}
    (hcs : ∀ c ∈ cs, S.Allows c) : ∃ sids, Writes S h sids (h.callbackError o s err cs) := by
  rw [callbackError]
  split
  · exact writes_calls h hcs
  · exact ⟨[], writes_of_registration hs rfl
      (SubscriptionImpl.registration_stop s.cancelTimeout (some err))⟩

theorem follows_callbackError (hs : h.objs[o]? = some s) (err : E) (cs : List Call) :
    Follows h (h.callbackError o s err cs) := by
  obtain ⟨sids, hw⟩ := writes_callbackError hs err fun c (_ : c ∈ cs) => allows_all c
  exact hw.follows

theorem writes_receive {S : Scope} (hmessage : S.message) (ho : S.object o)
    (h : ProtocolHandler μ E) : Writes S h [] (h.receive o) := by
  rw [receive]
  split
  · exact .refl h
  · next s hs => exact ((Write.receive hmessage hs).writes).then (writes_checkMax ho _)

end ProtocolHandler

namespace Connected

variable {μ E : Type} {raise : NatsError → Option PermissionContext → E}
  {S : ProtocolHandler.Scope} {c c' : Connected μ E} {ctx : PermissionContext} {err : E}
  {cs : List Call}

open ProtocolHandler

@[simp] theorem handler_handleMuxError (isMux : Bool) :
    (c.handleMuxError isMux err ctx).handler = c.handler := by
  unfold handleMuxError
  split
  · rfl
  · split
    · rfl
    · split <;> rfl

@[simp] theorem notified_handleMuxError (isMux : Bool) :
    (c.handleMuxError isMux err ctx).notified = c.notified := by
  unfold handleMuxError
  split
  · rfl
  · split
    · rfl
    · split <;> rfl

/-- The mux subscription and its requests apart, an error is handled by the table. -/
theorem processError_eq {m : List UInt8}
    (hctx : (PermissionText.toError (decode m)).2 = some ctx) :
    (c.processError raise m cs).handler =
        (c.handleError (raise (PermissionText.toError (decode m)).1 ctx) ctx cs).handler ∧
      (c.processError raise m cs).notified =
        (c.handleError (raise (PermissionText.toError (decode m)).1 ctx) ctx cs).notified := by
  simp only [processError, hctx]
  split
  · exact ⟨handler_handleMuxError _, notified_handleMuxError _⟩
  · exact ⟨handler_handleMuxError _, notified_handleMuxError _⟩

/-- The callback of an object, whatever it is. -/
theorem writes_callbackError {s : SubscriptionImpl μ E} {o : Nat} (hs : c.handler.objs[o]? = some s)
    (err : E) (hcs : ∀ c ∈ cs, S.Allows c) :
    ∃ sids, Writes S c.handler sids (c.callbackError o s err cs) := by
  rw [callbackError]
  split
  · exact ⟨[], .refl _⟩
  · exact ProtocolHandler.writes_callbackError hs err hcs

theorem follows_callbackError {s : SubscriptionImpl μ E} {o : Nat}
    (hs : c.handler.objs[o]? = some s) (err : E) (cs : List Call) :
    Follows c.handler (c.callbackError o s err cs) := by
  obtain ⟨sids, hw⟩ := writes_callbackError hs err fun c (_ : c ∈ cs) => allows_all c
  exact hw.follows

/-- An event of the handler writes to the table. -/
theorem writes_handle {e : ProtocolHandler.Event μ E} {h : ProtocolHandler μ E}
    (he : S.Covers c.handler e) (hstep : c.handle e = some h) :
    ∃ sids, Writes S c.handler sids h := by
  have hother : c.handler.step e = some h → ∃ sids, Writes S c.handler sids h :=
    ProtocolHandler.writes_step he
  cases e with
  | message sid v cs =>
      rw [handle] at hstep
      cases hget : c.handler.get sid with
      | none =>
          simp only [hget, Option.some.injEq] at hstep
          exact ⟨[], hstep ▸ .refl _⟩
      | some o =>
          simp only [hget, Option.some.injEq] at hstep
          split at hstep
          · exact ⟨[], hstep ▸ writes_receive he.1 (he.2.1 o hget) c.handler⟩
          · exact hother (congrArg some hstep)
  | next o => exact hother (Option.ite_none_left_eq_some.1 hstep).2
  | stop o err => exact hother (Option.ite_none_left_eq_some.1 hstep).2
  | leave o => exact hother (Option.ite_none_left_eq_some.1 hstep).2
  | _ => exact hother hstep

theorem writes_handleError (ho : ∀ o, S.object o) (hcs : ∀ c ∈ cs, S.Allows c) :
    ∃ sids, Writes S c.handler sids (c.handleError err ctx cs).handler := by
  unfold handleError
  split
  · exact ⟨[], .refl _⟩
  · split
    · exact ⟨[], .refl _⟩
    · rename_i s hs
      obtain ⟨sids, hcallback⟩ := writes_callbackError hs err hcs
      simp only
      split
      · rename_i s' hs'
        exact ⟨sids, hcallback.then (writes_cancel (ho _) hs')⟩
      · exact ⟨sids, hcallback⟩

/-- What an event may write is in the scope. -/
def Covers (S : Scope) (c : Connected μ E) : ConnectedEvent μ E → Prop
  | .handler e => S.Covers c.handler e
  | .request _ _ _ => S.limit none
  | .requestNoMux opts _ => S.limit opts.max
  | .error _ cs => (∀ o, S.object o) ∧ ∀ c ∈ cs, S.Allows c

/-- **One event** writes to the table. -/
theorem writes_step {e : ConnectedEvent μ E} (he : c.Covers S e)
    (hstep : c.step raise e = some c') : ∃ sids, Writes S c.handler sids c'.handler := by
  cases e with
  | handler e =>
      obtain ⟨h', hevent, rfl⟩ := Option.map_eq_some_iff.1 hstep
      exact writes_handle he hevent
  | request token subject inbox =>
      cases hstep
      cases hmux : c.mux with
      | some o =>
          refine ⟨[], ?_⟩
          simp only [request, initMux, hmux]
          exact .refl _
      | none =>
          refine ⟨[c.handler.sidCounter + 1], ?_⟩
          simp only [request, initMux, hmux]
          exact writes_subscribe c.handler he
  | requestNoMux opts subject =>
      cases hstep
      exact ⟨_, writes_subscribe c.handler he⟩
  | error m cs =>
      obtain ⟨-, hsome⟩ := Option.ite_none_right_eq_some.1 hstep
      rw [← Option.some.inj hsome]
      cases hctx : (PermissionText.toError (decode m)).2 with
      | none =>
          refine ⟨[], ?_⟩
          simp only [processError, hctx]
          exact .refl _
      | some ctx =>
          rw [(processError_eq hctx).1]
          exact writes_handleError he.1 he.2

theorem covers_all (c : Connected μ E) (e : ConnectedEvent μ E) : c.Covers Scope.all e := by
  cases e with
  | handler e => exact ProtocolHandler.covers_all c.handler e
  | request token subject inbox => exact trivial
  | requestNoMux opts subject => exact trivial
  | error m cs => exact ⟨fun _ => trivial, fun c _ => allows_all c⟩

/-- **The table stays in order.** -/
theorem keyed_step {e : ConnectedEvent μ E} (hk : c.handler.Keyed)
    (hstep : c.step raise e = some c') : c'.handler.Keyed := by
  obtain ⟨sids, hw⟩ := writes_step (covers_all c e) hstep
  exact hw.keyed hk

/-- The mux subscriptions are objects with an iterator. -/
def Unread (c : Connected μ E) : Prop :=
  ∀ o ∈ c.muxSubs, ∃ s, c.handler.objs[o]? = some s ∧ s.noIterator = false

@[simp] theorem muxSubs_handleMuxError (isMux : Bool) :
    (c.handleMuxError isMux err ctx).muxSubs = c.muxSubs := by
  unfold handleMuxError
  split
  · rfl
  · split
    · rfl
    · split <;> rfl

theorem muxSubs_handleError : (c.handleError err ctx cs).muxSubs = c.muxSubs := by
  unfold handleError
  split
  · rfl
  · split
    · rfl
    · dsimp only
      split <;> rfl

theorem muxSubs_processError (m : List UInt8) :
    (c.processError raise m cs).muxSubs = c.muxSubs := by
  cases hctx : (PermissionText.toError (decode m)).2 with
  | none => simp only [processError, hctx]
  | some ctx =>
      simp only [processError, hctx]
      split
      · exact (muxSubs_handleMuxError _).trans muxSubs_handleError
      · exact (muxSubs_handleMuxError _).trans muxSubs_handleError

theorem Unread.follows (hu : c.Unread) (hmux : c'.muxSubs = c.muxSubs)
    (hf : Follows c.handler c'.handler) : c'.Unread := by
  intro o ho
  obtain ⟨s, hs, hkind⟩ := hu o (hmux ▸ ho)
  obtain ⟨s', hs', hsame, -⟩ := hf.objs o s hs
  exact ⟨s', hs', hsame.trans hkind⟩

/-- **One event** makes mux subscriptions with an iterator only. -/
theorem Unread.step {e : ConnectedEvent μ E} (hu : c.Unread) (hstep : c.step raise e = some c') :
    c'.Unread := by
  obtain ⟨sids, hw⟩ := writes_step (covers_all c e) hstep
  have hf := hw.follows
  cases e with
  | handler e =>
      obtain ⟨h', -, rfl⟩ := Option.map_eq_some_iff.1 hstep
      exact hu.follows rfl hf
  | requestNoMux opts subject =>
      cases hstep
      exact hu.follows rfl hf
  | error m cs =>
      obtain ⟨-, hsome⟩ := Option.ite_none_right_eq_some.1 hstep
      refine hu.follows ?_ hf
      rw [← Option.some.inj hsome]
      exact muxSubs_processError m
  | request token subject inbox =>
      cases hstep
      cases hmux : c.mux with
      | some o =>
          refine hu.follows ?_ hf
          simp only [request, initMux, hmux]
      | none =>
          simp only [request, initMux, hmux] at hf ⊢
          intro o ho
          rcases List.mem_append.1 ho with ho | ho
          · obtain ⟨s, hs, hkind⟩ := hu o ho
            obtain ⟨s', hs', hsame, -⟩ := hf.objs o s hs
            exact ⟨s', hs', hsame.trans hkind⟩
          · rw [List.mem_singleton.1 ho]
            exact ⟨_, List.getElem?_concat_length, rfl⟩

/-! ## Whom an error reaches -/

section

variable {x : SubscriptionImpl μ E} {sid o : Nat} {subject : String} {group : Option String}

/-- What a lookup finds is in the table, and meets the test. -/
theorem findSub_eq_some {h : ProtocolHandler μ E} {p : Nat → SubscriptionImpl μ E → Bool}
    (hfind : h.findSub p = some (sid, o)) :
    (sid, o) ∈ h.subs ∧ ∃ x, h.objs[o]? = some x ∧ p o x = true := by
  have htest := List.find?_some hfind
  refine ⟨List.mem_of_find?_eq_some hfind, ?_⟩
  simp only at htest
  split at htest
  · rename_i x hx
    exact ⟨x, hx, htest⟩
  · cases htest

theorem findBy_eq_some {h : ProtocolHandler μ E} {subject : String} {queue : Option String}
    (hfind : h.findBy subject queue = some (sid, o)) :
    (sid, o) ∈ h.subs ∧ ∃ x, h.objs[o]? = some x ∧ x.subject = subject ∧ x.queue = queue := by
  obtain ⟨hmem, x, hx, htest⟩ := findSub_eq_some hfind
  rw [Bool.and_eq_true, decide_eq_true_eq, decide_eq_true_eq] at htest
  exact ⟨hmem, x, hx, htest⟩

/-- What happens to the subscription that is found. -/
theorem handleError_found (err : E) (cs : List Call) (hfind : c.named ctx = some (sid, o))
    (hx : c.handler.objs[o]? = some x) :
    ∃ x₁, (c.callbackError o x err cs).objs[o]? = some x₁ ∧ x₁.noIterator = x.noIterator ∧
      (x₁.sid = x.sid ∨ c.handler.sidCounter < x₁.sid) ∧
      (c.handleError err ctx cs).notified = c.notified ++ [(o, err)] ∧
      (c.handleError err ctx cs).handler = (c.callbackError o x err cs).cancel o x₁ := by
  obtain ⟨x₁, hx₁, hkind, hsid⟩ := (follows_callbackError hx err cs).objs o x hx
  refine ⟨x₁, hx₁, hkind, hsid, ?_⟩
  simp only [handleError, hfind, hx, hx₁, and_self]

/-- The object is closed, with the error where it has an iterator, unless the dispatcher is its
callback. -/
theorem closed_handleError {x₁ : SubscriptionImpl μ E} (hx : c.handler.objs[o]? = some x)
    (hmux : o ∉ c.muxSubs) (hlive : x.isClosed = false)
    (hx₁ : (c.callbackError o x err cs).objs[o]? = some x₁) (hkind : x₁.noIterator = x.noIterator) :
    x₁.close.isClosed = true ∧ (x.noIterator = false → x₁.close.iter.err = some err) := by
  cases hno : x.noIterator with
  | true =>
      rw [hno] at hkind
      refine ⟨?_, nofun⟩
      cases hclosed : x₁.isClosed with
      | true =>
          rw [SubscriptionImpl.close, if_pos hclosed]
          exact hclosed
      | false =>
          have hdone : x₁.iter.done = false := hclosed
          rw [SubscriptionImpl.close, hclosed, if_neg Bool.false_ne_true, if_pos hkind]
          show (QueuedIterator.stop x₁.iter none).done = true
          rw [QueuedIterator.stop, hdone, if_neg Bool.false_ne_true]
  | false =>
      have hstop : x₁ = x.cancelTimeout.stop (some err) := by
        rw [callbackError, if_neg hmux, ProtocolHandler.callbackError, hno,
          if_neg Bool.false_ne_true, setObj_self hx] at hx₁
        exact (Option.some.inj hx₁).symm
      have hdone : x.iter.done = false := hlive
      have hiter : x₁.iter.done = true ∧ x₁.iter.err = some err := by
        rw [hstop]
        simp [SubscriptionImpl.stop, SubscriptionImpl.cancelTimeout, QueuedIterator.stop, hdone]
      have hclose : x₁.close = x₁ := if_pos hiter.1
      rw [hclose]
      exact ⟨hiter.1, fun _ => hiter.2⟩

/-- A mux subscription stays open: what would stop it is pushed into its iterator. -/
theorem open_handleError {x₁ : SubscriptionImpl μ E} (hx : c.handler.objs[o]? = some x)
    (hmux : o ∈ c.muxSubs) (hkind : x.noIterator = false) (hlive : x.isClosed = false)
    (hx₁ : (c.callbackError o x err cs).objs[o]? = some x₁) : x₁.close.isClosed = false := by
  rw [callbackError, if_pos hmux, hx, Option.some.injEq] at hx₁
  rw [← hx₁, SubscriptionImpl.close, hlive, if_neg Bool.false_ne_true, hkind,
    if_neg Bool.false_ne_true]
  show (x.iter.pushFn .closeFn).done = false
  have hdone : x.iter.done = false := hlive
  simp [QueuedIterator.pushFn, hdone]

/-- An entry of another object stays. -/
theorem stays_handleError {x₁ y : SubscriptionImpl μ E} {sid' o' : Nat} (hk : c.handler.Keyed)
    (hmem : (sid, o) ∈ c.handler.subs) (hx : c.handler.objs[o]? = some x)
    (hsid : x₁.sid = x.sid ∨ c.handler.sidCounter < x₁.sid) (hne : o' ≠ o)
    (hmem' : (sid', o') ∈ c.handler.subs) (hy : c.handler.objs[o']? = some y)
    (hcalls : (sid', o') ∈ (c.handler.calls cs).subs)
    (hcallsy : (c.handler.calls cs).objs[o']? = some y) :
    (sid', o') ∈ ((c.callbackError o x err cs).cancel o x₁).subs ∧
      ((c.callbackError o x err cs).cancel o x₁).objs[o']? = some y := by
  have hcallback : (sid', o') ∈ (c.callbackError o x err cs).subs ∧
      (c.callbackError o x err cs).objs[o']? = some y := by
    rw [callbackError]
    split
    · exact ⟨hmem', hy⟩
    · rw [ProtocolHandler.callbackError]
      split
      · exact ⟨hcalls, hcallsy⟩
      · exact ⟨hmem', (setObj_ne hne).trans hy⟩
  refine ⟨mem_delete.2 ⟨hcallback.1, ?_⟩, (setObj_ne hne).trans hcallback.2⟩
  intro heq
  have hsid' : sid' = x₁.sid := heq
  rcases hsid with hsame | hnew
  · obtain ⟨x', hx', hx'sid⟩ := hk.mem sid o hmem
    rw [hx, Option.some.injEq] at hx'
    have hentry : (sid', o').1 = (sid, o).1 := by
      show sid' = sid
      rw [hsid', hsame, hx', hx'sid]
    have hpair := List.inj_on_of_nodup_map hk.nodup hmem' hmem hentry
    exact hne (Prod.mk.inj hpair).2
  · have hle := hk.le (sid', o') hmem'
    rw [← hsid'] at hnew
    exact absurd hnew (Nat.not_lt.2 hle)

/-- The object has no entry any more. -/
theorem removed_handleError {x₁ : SubscriptionImpl μ E} (hk : c.handler.Keyed)
    (hx : c.handler.objs[o]? = some x)
    (hx₁ : (c.callbackError o x err cs).objs[o]? = some x₁) :
    ∀ i, (i, o) ∉ ((c.callbackError o x err cs).cancel o x₁).subs := by
  intro i hmem
  obtain ⟨hmem, hne⟩ := mem_delete.1 hmem
  obtain ⟨sids, hw⟩ := writes_callbackError hx err fun c (_ : c ∈ cs) => allows_all c
  obtain ⟨x', hx', hsid⟩ := (hw.keyed hk).mem i o hmem
  rw [hx₁, Option.some.injEq] at hx'
  apply hne
  rw [hx', hsid]

/-- **A lookup that finds the right one.** -/
theorem closes_of_found (hk : c.handler.Keyed) (hfind : c.named ctx = some (sid, o))
    (hmem : (sid, o) ∈ c.handler.subs) (hx : c.handler.objs[o]? = some x)
    (hlive : x.isClosed = false) (hmux : o ∉ c.muxSubs) (hsubject : x.subject = subject)
    (hgroup : x.group = group) (hhandler : c'.handler = (c.handleError err ctx cs).handler)
    (hnotified : c'.notified = (c.handleError err ctx cs).notified) :
    Closes err subject group cs c c' := by
  obtain ⟨x₁, hx₁, hkind, hsid, hnotify, hcancel⟩ := handleError_found err cs hfind hx
  have hclosed := closed_handleError hx hmux hlive hx₁ hkind
  rw [hcancel] at hhandler
  constructor
  · refine ⟨sid, o, x, x₁.close, hmem, hx, hsubject, hgroup, hlive, hnotified.trans hnotify, ?_,
      hclosed.1, hclosed.2, ?_⟩
    · rw [hhandler]
      exact setObj_self hx₁
    · rw [hhandler]
      exact removed_handleError hk hx hx₁
  · intro sid' o' y hmem' hy hother hcalls hcallsy
    rw [hhandler]
    refine stays_handleError hk hmem hx hsid ?_ hmem' hy hcalls hcallsy
    rintro rfl
    rw [hx, Option.some.injEq] at hy
    rcases hother with hother | hother
    · exact hother (hy ▸ hsubject)
    · exact hother (hy ▸ hgroup)

/-- The text of a rejection is read as it was sent. -/
theorem decode_rejection (quote : List Char → List Char) :
    decode (encode (PermissionText.rejection quote subject group)) =
      PermissionText.rejection quote subject group := by
  apply decode_encode
  rw [PermissionText.toList_rejection]
  show some '\'' ≠ some '\uFEFF'
  decide

end

theorem quote_eq {quote : List Char → List Char} {name : String}
    (h : String.ofList (quote name.toList) = name) : quote name.toList = name.toList :=
  String.toList_ofList.symm.trans (congrArg String.toList h)

/-- What the text of a rejection says of the subscription. -/
def readContext (quote : List Char → List Char) (subject : String) (group : Option String) :
    PermissionContext :=
  ⟨.subscription, .ofList (quote subject.toList),
    group.map fun queue => .ofList (quote queue.toList)⟩

/-- Names that are quoted as they are, are read as they are. -/
theorem readContext_plain {quote : List Char → List Char} {subject : String}
    {group : Option String} (hplain : quote subject.toList = subject.toList)
    (hplainQueue : ∀ queue, group = some queue → quote queue.toList = queue.toList) :
    readContext quote subject group = ⟨.subscription, subject, group⟩ := by
  rw [readContext, hplain, String.ofList_toList]
  cases group with
  | none => rfl
  | some queue => rw [Option.map_some, hplainQueue queue rfl, String.ofList_toList]

section

variable {raise : NatsError → Option PermissionContext → E} {c c' : Connected μ E}
  {quote : List Char → List Char} {subject : String} {group : Option String} {err : E}
  {cs : List Call}

/-- A rejection is handled as what its text says. -/
theorem processError_rejection (hquote : PermissionText.Escapes quote)
    (hsubject : PermissionText.Word subject)
    (hgroup : ∀ queue, group = some queue → PermissionText.Word queue)
    (hstep : c.step raise (.error (encode (PermissionText.rejection quote subject group)) cs) =
      some c') :
    let err := PermissionText.toError (PermissionText.rejection quote subject group)
    c'.handler = (c.handleError (raise err.1 err.2) (readContext quote subject group) cs).handler ∧
      c'.notified =
        (c.handleError (raise err.1 err.2) (readContext quote subject group) cs).notified := by
  intro err
  have hctx : err.2 = some (readContext quote subject group) :=
    PermissionText.context_toError hquote hsubject hgroup
  have hdecode : PermissionText.toError
      (decode (encode (PermissionText.rejection quote subject group))) = err :=
    congrArg _ (decode_rejection quote)
  have heq :=
    @processError_eq _ _ raise c (readContext quote subject group) cs
      (encode (PermissionText.rejection quote subject group)) (by rw [hdecode]; exact hctx)
  rw [hdecode] at heq
  rw [← Option.some.inj (Option.ite_none_right_eq_some.1 hstep).2, hctx]
  exact heq

/-- **The right one was found**, if it was told of the error and is closed. -/
theorem answerable_of_closes (hunread : c.Unread) (hcloses : Closes err subject group cs c c')
    (hhandler : c'.handler = (c.handleError err (readContext quote subject group) cs).handler)
    (hnotified : c'.notified = (c.handleError err (readContext quote subject group) cs).notified) :
    Answerable quote subject group c := by
  obtain ⟨⟨sid, o, x, x', hmem, hx, hxsubject, hxgroup, hlive, htold, hx', hclosed, -⟩, -⟩ :=
    hcloses
  rw [hnotified] at htold
  cases hfind : c.named (readContext quote subject group) with
  | none =>
      simp only [handleError, hfind] at htold
      exact absurd (List.self_eq_append_right.1 htold) (List.cons_ne_nil _ _)
  | some found =>
      obtain ⟨sid', o'⟩ := found
      obtain ⟨-, y, hy, hysubject, hyqueue⟩ := findBy_eq_some hfind
      obtain ⟨x₁, hx₁, -, -, hnotify, hcancel⟩ := handleError_found err cs hfind hy
      rw [hnotify] at htold
      have ho : o' = o := congrArg Prod.fst (List.cons.inj (List.append_cancel_left htold)).1
      subst ho
      rw [hx, Option.some.injEq] at hy
      subst hy
      have hplain := quote_eq (hysubject.symm.trans hxsubject)
      have hplainQueue : ∀ queue, group = some queue → quote queue.toList = queue.toList := by
        rintro queue rfl
        have hqueue : x.queue = some queue := (Option.filter_eq_some_iff.1 hxgroup).1
        exact quote_eq (Option.some.inj (hyqueue.symm.trans hqueue))
      rw [readContext_plain hplain hplainQueue] at hfind
      refine ⟨hplain, hplainQueue, sid', o', x, hfind, hx, hlive, fun hmux => ?_⟩
      -- a mux subscription would still be open
      obtain ⟨y, hy, hkind⟩ := hunread o' hmux
      rw [hx, Option.some.injEq] at hy
      subst hy
      have hopen := open_handleError hx hmux hkind hlive hx₁
      rw [hhandler, hcancel] at hx'
      have hset : (c.callbackError o' x err cs |>.cancel o' x₁).objs[o']? = some x₁.close :=
        setObj_self hx₁
      rw [hset, Option.some.injEq] at hx'
      rw [hx', hclosed] at hopen
      cases hopen

/-- The first subscription with the names is the right one, if it is still open. -/
theorem closes_of_answerable (hkeyed : c.handler.Keyed)
    (hgroup : ∀ queue, group = some queue → PermissionText.Word queue)
    (hanswer : Answerable quote subject group c)
    (hhandler : c'.handler = (c.handleError err (readContext quote subject group) cs).handler)
    (hnotified : c'.notified = (c.handleError err (readContext quote subject group) cs).notified) :
    Closes err subject group cs c c' := by
  obtain ⟨hplain, hplainQueue, sid, o, x, hfind, hx, hlive, hmux⟩ := hanswer
  obtain ⟨hmem, y, hy, hysubject, hyqueue⟩ := findBy_eq_some hfind
  rw [hx, Option.some.injEq] at hy
  subst hy
  have hxgroup : x.group = group := by
    rw [SubscriptionImpl.group, hyqueue]
    cases group with
    | none => rfl
    | some queue => exact Option.filter_some_pos (decide_eq_true (hgroup queue rfl).ne)
  refine closes_of_found hkeyed ?_ hmem hx hlive hmux hysubject hxgroup hhandler hnotified
  rw [readContext_plain hplain hplainQueue]
  exact hfind

end

/-- **When a permission error reaches the right subscription.** In every state that is reached, the
text that rejects a SUB with this subject and this queue closes a subscription that has them, and no
other, exactly if the names are quoted as they are, and the first subscription that was given them
is still open and is no mux subscription. A subscription that was given an empty queue has none on
the wire, and is not found. -/
theorem closes_iff (raise : NatsError → Option PermissionContext → E)
    (quote : List Char → List Char) (hquote : PermissionText.Escapes quote)
    (pendingLimit maxOut : Nat) (es : List (ConnectedEvent μ E)) (c c' : Connected μ E)
    (hrun : run (step raise) (new pendingLimit maxOut) es = some c) (subject : String)
    (group : Option String) (hsubject : PermissionText.Word subject)
    (hgroup : ∀ queue, group = some queue → PermissionText.Word queue) (cs : List Call)
    (hstep : c.step raise (.error (encode (PermissionText.rejection quote subject group)) cs) =
      some c') :
    let err := PermissionText.toError (PermissionText.rejection quote subject group)
    Closes (raise err.1 err.2) subject group cs c c' ↔ Answerable quote subject group c := by
  intro err
  have hkeyed : c.handler.Keyed :=
    invariant_run (I := fun c : Connected μ E => c.handler.Keyed)
      (fun _ _ _ h hstep => keyed_step h hstep)
      hrun ⟨fun _ _ hmem => (by cases hmem), List.nodup_nil, fun _ hx => (by cases hx)⟩
  have hunread : c.Unread :=
    invariant_run (I := fun c : Connected μ E => c.Unread) (fun _ _ _ h hstep => h.step hstep) hrun
      (fun _ ho => by cases ho)
  obtain ⟨hhandler, hnotified⟩ := processError_rejection hquote hsubject hgroup hstep
  constructor
  · intro hcloses
    exact answerable_of_closes hunread hcloses hhandler hnotified
  · intro hanswer
    exact closes_of_answerable hkeyed hgroup hanswer hhandler hnotified

/-- Two subscriptions of a subject in different queues, the second of which is rejected. -/
theorem closes_iff_queue :
    ∃ c c' : Connected Unit (NatsError × Option PermissionContext),
      (let err := PermissionText.toError
        (PermissionText.rejection PermissionText.escape "q" (some "bad"))
      Closes (err.1, err.2) "q" (some "bad") [] c c') ∧ c.handler.subs.length = 2 := by
  let step := @step Unit _ (Prod.mk : NatsError → Option PermissionContext → _)
  let es : List (ConnectedEvent Unit (NatsError × Option PermissionContext)) :=
    [.handler (.call (.subscribe ⟨"q", some "A", none, true, false⟩)),
      .handler (.call (.subscribe ⟨"q", some "bad", none, true, false⟩))]
  let m := encode (PermissionText.rejection PermissionText.escape "q" (some "bad"))
  have hruns : (run step (new 32768 2) es).any (fun c => (step c (.error m [])).isSome &&
      c.handler.subs.length = 2 && (c.handler.findBy "q" (some "bad")).any fun x =>
        (c.handler.objs[x.2]?).any fun s => !s.isClosed && x.2 ∉ c.muxSubs) = true := by
    decide +kernel
  obtain ⟨c, hrun, hc⟩ := (Option.any_eq_true _ _).1 hruns
  rw [Bool.and_eq_true, Bool.and_eq_true] at hc
  obtain ⟨⟨hsome, hlength⟩, hfirst⟩ := hc
  obtain ⟨c', hstep⟩ := Option.isSome_iff_exists.1 hsome
  obtain ⟨⟨sid, o⟩, hfind, hfound⟩ := (Option.any_eq_true _ _).1 hfirst
  obtain ⟨s, hs, hopen⟩ := (Option.any_eq_true _ _).1 hfound
  have hword : PermissionText.Word "q" ∧ PermissionText.Word "bad" :=
    ⟨⟨by decide, by decide +kernel⟩, ⟨by decide, by decide +kernel⟩⟩
  refine ⟨c, c', ?_, of_decide_eq_true hlength⟩
  refine (closes_iff Prod.mk PermissionText.escape PermissionText.escapes_escape 32768 2 es
    c c' hrun "q" (some "bad") hword.1 (fun queue hqueue => ?_) [] hstep).2
    ⟨?_, fun queue hqueue => ?_, ?_⟩
  · exact Option.some.inj hqueue ▸ hword.2
  · decide +kernel
  · rw [← Option.some.inj hqueue]
    decide +kernel
  · exact ⟨sid, o, s, hfind, hs, by simpa using hopen⟩

/-- A subscription with an empty queue is not found. -/
theorem not_closes :
    ¬ ∀ (quote : List Char → List Char) (pendingLimit maxOut : Nat)
        (es : List (ConnectedEvent Unit (NatsError × Option PermissionContext)))
        (c c' : Connected Unit (NatsError × Option PermissionContext)) (sid o : Nat)
        (s : SubscriptionImpl Unit (NatsError × Option PermissionContext)) (cs : List Call),
      PermissionText.Escapes quote → run (step Prod.mk) (new pendingLimit maxOut) es = some c →
      (sid, o) ∈ c.handler.subs → c.handler.objs[o]? = some s → s.isClosed = false →
      PermissionText.Word s.subject → (∀ queue, s.group = some queue → PermissionText.Word queue) →
      c.step Prod.mk (.error (encode (PermissionText.rejection quote s.subject s.group)) cs) =
      some c' →
      let err := PermissionText.toError (PermissionText.rejection quote s.subject s.group)
      Closes (err.1, err.2) s.subject s.group cs c c' := by
  intro h
  let es : List (ConnectedEvent Unit (NatsError × Option PermissionContext)) :=
    [.handler (.call (.subscribe ⟨"q", some "", none, true, false⟩))]
  let s : SubscriptionImpl Unit (NatsError × Option PermissionContext) :=
    { SubscriptionImpl.new "q" (some "") none true false with sid := 1 }
  let m := encode (PermissionText.rejection PermissionText.escape "q" none)
  have hruns : (run (step Prod.mk) (new 32768 2) es).any (fun c => (1, 0) ∈ c.handler.subs &&
      c.handler.objs[0]? = some s && (c.step Prod.mk (.error m [])).any fun c' =>
        c'.notified = c.notified) = true := by
    decide +kernel
  obtain ⟨c, hrun, hc⟩ := (Option.any_eq_true _ _).1 hruns
  rw [Bool.and_eq_true, Bool.and_eq_true, decide_eq_true_eq, decide_eq_true_eq] at hc
  obtain ⟨⟨hmem, hs⟩, hstep⟩ := hc
  obtain ⟨c', hstep, hnotified⟩ := (Option.any_eq_true _ _).1 hstep
  obtain ⟨sid, o, x, x', -, -, -, -, -, hnotify, -⟩ :=
    (h PermissionText.escape 32768 2 es c c' 1 0 s [] PermissionText.escapes_escape hrun hmem hs
      rfl ⟨by decide, by decide +kernel⟩ (fun _ hq => by cases hq) hstep).closes
  rw [of_decide_eq_true hnotified] at hnotify
  exact absurd (List.self_eq_append_right.1 hnotify) (List.cons_ne_nil _ _)

end Connected

end NatsClient.Connection
