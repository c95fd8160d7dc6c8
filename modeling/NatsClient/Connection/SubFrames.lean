import NatsClient.Connection.Output
import NatsClient.Connection.Table

/-!
# The SUBs of a connection

Over all runs of the protocol handler, how often the SUB of a sid is written on one connection. Each
SUB queued by a call has a new sid, and the replay of the table at the end of a dial repeats those
of the table; a SUB is written twice where both hold of one sid.

* `Carries`, `Advances`: what a step of the link, and a call of the handler, does to the SUBs on
  their way;
* `sub_once_of_fresh`: in the runs whose dials complete with no SUB of the table in the outbound
  buffer, every sid is subscribed once;
* `sub_twice_of_not_fresh`: a dial that completes otherwise subscribes a sid twice;
* `not_sub_once`: a subscription made during a redial is subscribed twice.
-/

set_option autoImplicit false

namespace NatsClient.Connection

open NatsClient.Foundation

/-- The sids of the SUBs among some frames. -/
def subSids : List Frame → List Nat
  | [] => []
  | .command (.sub _ _ sid) :: frames => sid :: subSids frames
  | .command (.unsub _ _) :: frames | .command (.pub _ _) :: frames | .connect _ :: frames
  | .ping _ :: frames | .pong :: frames => subSids frames

@[simp] theorem subSids_append (xs ys : List Frame) :
    subSids (xs ++ ys) = subSids xs ++ subSids ys := by
  induction xs with
  | nil => rfl
  | cons f xs ih =>
      cases f with
      | command c =>
          cases c with
          | sub subject queue sid => exact congrArg (sid :: ·) ih
          | unsub sid max => exact ih
          | pub proto payload => exact ih
      | connect options => exact ih
      | ping d => exact ih
      | pong => exact ih

theorem mem_subSids {frames : List Frame} {sid : Nat} :
    sid ∈ subSids frames ↔ ∃ subject queue, .command (.sub subject queue sid) ∈ frames := by
  induction frames with
  | nil =>
      constructor
      · intro hmem
        cases hmem
      · rintro ⟨_, _, hmem⟩
        cases hmem
  | cons f frames ih =>
      cases f with
      | command c =>
          cases c with
          | sub subject queue n =>
              simp only [subSids, List.mem_cons, ih, Frame.command.injEq, Command.sub.injEq]
              constructor
              · rintro (rfl | ⟨subject', queue', hmem⟩)
                · exact ⟨subject, queue, Or.inl ⟨rfl, rfl, rfl⟩⟩
                · exact ⟨subject', queue', Or.inr hmem⟩
              · rintro ⟨subject', queue', ⟨-, -, heq⟩ | hmem⟩
                · exact Or.inl heq
                · exact Or.inr ⟨subject', queue', hmem⟩
          | unsub n max => simpa [subSids] using ih
          | pub proto payload => simpa [subSids] using ih
      | connect options => simpa [subSids] using ih
      | ping d => simpa [subSids] using ih
      | pong => simpa [subSids] using ih

namespace Link

variable {l l' l'' : Link} {xs ys : List Nat}

/-- The sids of the SUBs the transport took and of those in the buffer. -/
def subs (l : Link) : List Nat := subSids l.transport.sent ++ subSids l.outbound

/-- A step of the link that is neither `prepare` nor the end of a dial: SUBs for `xs` are added
behind the others, some may be dropped, and none is sent before the connection is up. -/
structure Carries (l l' : Link) (xs : List Nat) : Prop where
  subs : l'.subs.Sublist (l.subs ++ xs)
  idle : l'.connected = false → l'.transport.done = false →
    l.connected = false ∧ l.transport.done = false ∧
      subSids l'.transport.sent = subSids l.transport.sent

theorem Carries.refl (l : Link) : Carries l l [] where
  subs := by
    rw [List.append_nil]
  idle hoff hopen := ⟨hoff, hopen, rfl⟩

theorem Carries.trans (h : Carries l l' xs) (h' : Carries l' l'' ys) :
    Carries l l'' (xs ++ ys) where
  subs := by
    rw [← List.append_assoc]
    exact h'.subs.trans (h.subs.append_right ys)
  idle hoff hopen := by
    obtain ⟨hoff', hopen', hsent'⟩ := h'.idle hoff hopen
    obtain ⟨hoff'', hopen'', hsent⟩ := h.idle hoff' hopen'
    exact ⟨hoff'', hopen'', hsent'.trans hsent⟩

/-- The second part adds nothing. -/
theorem Carries.then (h : Carries l l' xs) (h' : Carries l' l'' []) : Carries l l'' xs := by
  have htrans := h.trans h'
  rwa [List.append_nil] at htrans

/-- Neither buffer nor transport are touched, or the transport is closed. -/
theorem carries_of_sent (hsent : l'.transport.sent = l.transport.sent)
    (houtbound : l'.outbound = l.outbound)
    (hidle : l'.connected = false → l'.transport.done = false →
      l.connected = false ∧ l.transport.done = false) : Carries l l' [] where
  subs := by
    rw [Link.subs, Link.subs, hsent, houtbound, List.append_nil]
  idle hoff hopen := by
    obtain ⟨hoff', hopen'⟩ := hidle hoff hopen
    exact ⟨hoff', hopen', by rw [hsent]⟩

/-- Other fields do not matter. -/
theorem carries_of_eq (htransport : l'.transport = l.transport)
    (houtbound : l'.outbound = l.outbound) (hconnected : l'.connected = l.connected) :
    Carries l l' [] := by
  apply carries_of_sent (by rw [htransport]) houtbound
  intro hoff hopen
  rw [hconnected] at hoff
  rw [htransport] at hopen
  exact ⟨hoff, hopen⟩

theorem carries_closed {isInternal : Bool}
    (htransport : l'.transport = l.transport.close isInternal)
    (houtbound : l'.outbound = l.outbound) : Carries l l' [] := by
  apply carries_of_sent (by rw [htransport, Transport.sent_close]) houtbound
  intro _ hopen
  rw [htransport, Transport.done_close] at hopen
  cases hopen

/-- Frames without SUBs are sent past the buffer. -/
theorem carries_send (l : Link) {frames : List Frame} (hframes : subSids frames = []) :
    Carries l (l.send frames) [] := by
  cases hdone : l.transport.done with
  | true =>
      rw [Link.send, Transport.send_of_done hdone]
      exact .refl l
  | false =>
      have hsent : (l.transport.send frames).sent = l.transport.sent ++ frames := by
        rw [Transport.send_of_open (by rw [hdone]; exact Bool.false_ne_true)]
      constructor
      · rw [Link.subs, Link.subs, Link.send, hsent, subSids_append, hframes, List.append_nil,
          List.append_nil]
      · intro hoff _
        refine ⟨hoff, hdone, ?_⟩
        rw [Link.send, hsent, subSids_append, hframes, List.append_nil]

/-- A flush moves the SUBs of the buffer to the transport, which drops them when it is closed. -/
theorem carries_flushPending (l : Link) : Carries l l.flushPending [] := by
  rw [Link.flushPending]
  split
  · next hready =>
      split
      · have hon : l.connected = true := (Bool.and_eq_true_iff.1 hready).2
        constructor
        · rw [List.append_nil]
          cases hdone : l.transport.done with
          | true =>
              rw [Link.subs, Link.subs, Link.send, Transport.send_of_done hdone, subSids,
                List.append_nil]
              exact List.sublist_append_left _ _
          | false =>
              rw [Link.subs, Link.subs, Link.send,
                Transport.send_of_open (by rw [hdone]; exact Bool.false_ne_true), subSids_append,
                subSids, List.append_nil]
        · intro hoff
          rw [show ({ l.send l.outbound with outbound := [] } : Link).connected =
            l.connected from rfl, hon] at hoff
          cases hoff
      · exact .refl l
  · exact .refl l

theorem carries_fill (l : Link) (f : Frame) : Carries l (l.fill f) (subSids [f]) where
  subs := by
    rw [Link.subs, Link.subs, Link.fill, subSids_append, List.append_assoc]
  idle hoff hopen := ⟨hoff, hopen, rfl⟩

theorem carries_sendCommand (l : Link) (c : Command) :
    Carries l (l.sendCommand c) (subSids [.command c]) := by
  have hfill := carries_fill l (.command c)
  rw [Link.sendCommand]
  split
  · exact hfill.then (carries_of_eq rfl rfl rfl)
  · split
    · exact hfill.then (carries_flushPending _)
    · exact hfill

theorem carries_flush (l : Link) : Carries l l.flush [] := by
  have hnew : Carries l { l with
      deferreds := l.deferreds.create
      pongs := l.pongs ++ [l.deferreds.created] } [] := carries_of_eq rfl rfl rfl
  exact (hnew.then (carries_fill _ (.ping l.deferreds.created))).then (carries_flushPending _)

theorem carries_failConnect (l : Link) : Carries l l.failConnect [] := by
  rw [Link.failConnect]
  split
  · split
    · exact carries_of_eq rfl rfl rfl
    · exact .refl l
  · exact .refl l

theorem carries_close (l : Link) : Carries l l.close [] := by
  rw [Link.close]
  split
  · exact .refl l
  · have hcancel : Carries l l.heartbeatCancel [] := carries_of_eq rfl rfl rfl
    exact (hcancel.then (carries_failConnect _)).then (carries_closed rfl rfl)

theorem carries_heartbeatTimer (l : Link) : Carries l l.heartbeatTimer [] := by
  rw [Link.heartbeatTimer]
  split
  · have hcancel : Carries l l.heartbeatCancel [] := carries_of_eq rfl rfl rfl
    exact hcancel.then (carries_closed rfl rfl)
  · exact (carries_flush l).then (carries_of_eq rfl rfl rfl)

theorem carries_processInfo (l : Link) (options : Option String) :
    Carries l (l.processInfo options) [] := by
  have hinfo : Carries l { l with infoReceived := true } [] := carries_of_eq rfl rfl rfl
  have hpings : ∀ ds : List Nat, subSids (ds.map .ping) = [] := by
    intro ds
    induction ds with
    | nil => rfl
    | cons d ds ih => exact ih
  cases options with
  | some options =>
      rw [Link.processInfo]
      split
      · exact .refl l
      · exact hinfo.then (carries_send _ (hpings _))
  | none =>
      rw [Link.processInfo]
      split
      · exact .refl l
      · exact hinfo.then (carries_close _)

theorem carries_processPong (l : Link) : Carries l l.processPong [] := by
  rw [Link.processPong]
  split
  · exact carries_of_eq rfl rfl rfl
  · exact carries_of_eq rfl rfl rfl

theorem carries_dialFailed (l : Link) (connectFailed : Bool) :
    Carries l (l.dialFailed connectFailed) [] := by
  rw [Link.dialFailed]
  cases l.handshake with
  | none => exact carries_closed rfl rfl
  | some pong => cases connectFailed <;> exact carries_closed rfl rfl

/-- A transport that notifies is closed, so nothing is open behind the notification. -/
theorem carries_closedNotification (hc : l.Controlled) (hnotifies : l.transport.notifies = true)
    (reconnect : Bool) : Carries l (l.closedNotification reconnect) [] := by
  have hdown : Carries l { l with
      connected := false
      transport := { l.transport with notifies := false } } [] := by
    refine carries_of_sent rfl rfl ?_
    intro _ hopen
    rw [show ({ l.transport with notifies := false } : Transport).done = l.transport.done from rfl,
      hc.notifies_done hnotifies] at hopen
    cases hopen
  rw [Link.closedNotification]
  split
  · exact hdown
  · split
    · exact hdown.then (carries_of_eq rfl rfl rfl)
    · exact hdown.then (carries_close _)

/-- **The steps of the link** that are not calls, other than `prepare`. -/
theorem carries_step {e : Event} (hc : l.Controlled) (he : ProtocolHandler.isInternal e = true)
    (hne : e ≠ .prepare) (hstep : l.step e = some l') : Carries l l' [] := by
  cases step_of_eq hstep with
  | command | flush | dialDone | close => cases he
  | prepare => exact absurd rfl hne
  | flushTask => exact (carries_flushPending l).then (carries_of_eq rfl rfl rfl)
  | heartbeatTimer => exact carries_heartbeatTimer l
  | heartbeatThen ping o => cases o <;> exact carries_of_eq rfl rfl rfl
  | info options => exact carries_processInfo l options
  | ping => exact carries_send l rfl
  | pong => exact carries_processPong l
  | dialFailed connectFailed => exact carries_dialFailed l connectFailed
  | disconnect => exact carries_closed rfl rfl
  | closedNotification reconnect hnotifies =>
      exact carries_closedNotification hc hnotifies reconnect
  | giveUp =>
      have hidle : Carries l { l with loop := .idle } [] := carries_of_eq rfl rfl rfl
      exact hidle.then (carries_close _)

end Link

/-! ## The handler -/

namespace ProtocolHandler

open Link

variable {μ E : Type} {h h' h'' : ProtocolHandler μ E} {s s' : SubscriptionImpl μ E} {o : Nat}

/-- The sids of the table: each is that of its object, and none is used twice or above the
counter. -/
structure Keyed (h : ProtocolHandler μ E) : Prop where
  mem : ∀ sid o, (sid, o) ∈ h.subs → ∃ s, h.objs[o]? = some s ∧ s.sid = sid
  nodup : (h.subs.map Prod.fst).Nodup
  le : ∀ x ∈ h.subs, x.1 ≤ h.sidCounter

/-- An object that is set keeps the entries in order, where its sid is the same. -/
theorem Keyed.setObj (hk : h.Keyed) (hs : h.objs[o]? = some s) (hsid : s'.sid = s.sid) :
    (h.setObj o s').Keyed where
  mem sid i hmem := by
    obtain ⟨x, hx, hxsid⟩ := hk.mem sid i hmem
    cases Nat.decEq i o with
    | isTrue hi =>
        subst hi
        rw [hs, Option.some.injEq] at hx
        exact ⟨s', setObj_self hs, by rw [hsid, hx, hxsid]⟩
    | isFalse hi => exact ⟨x, (setObj_ne hi).trans hx, hxsid⟩
  nodup := hk.nodup
  le := hk.le

theorem Keyed.delete (hk : h.Keyed) (sid : Nat) :
    ({ h with subs := ProtocolHandler.delete h.subs sid } : ProtocolHandler μ E).Keyed where
  mem sid' o hmem := hk.mem sid' o (mem_delete.1 hmem).1
  nodup := hk.nodup.sublist (List.filter_sublist.map _)
  le x hx := hk.le x (mem_delete.1 hx).1

/-- An object that is not in the table enters it under the next sid. -/
theorem Keyed.insert (hk : h.Keyed) (hout : ∀ sid, (sid, o) ∉ h.subs)
    (hobj : h'.objs[o]? = some s) (hsid : s.sid = h.sidCounter + 1)
    (hobjs : ∀ i x, i ≠ o → h.objs[i]? = some x → h'.objs[i]? = some x)
    (hsubs : h'.subs = h.subs ++ [(h.sidCounter + 1, o)])
    (hcounter : h'.sidCounter = h.sidCounter + 1) : h'.Keyed where
  mem sid i hmem := by
    rw [hsubs] at hmem
    rcases List.mem_append.1 hmem with hold | hmem
    · obtain ⟨x, hx, hxsid⟩ := hk.mem sid i hold
      refine ⟨x, hobjs i x ?_ hx, hxsid⟩
      intro hi
      exact hout sid (hi ▸ hold)
    · rw [List.mem_singleton, Prod.mk.injEq] at hmem
      obtain ⟨rfl, rfl⟩ := hmem
      exact ⟨s, hobj, hsid⟩
  nodup := by
    rw [hsubs, List.map_append, List.nodup_append]
    refine ⟨hk.nodup, List.nodup_singleton _, ?_⟩
    intro a ha b hb heq
    obtain ⟨x, hx, rfl⟩ := List.mem_map.1 ha
    rw [List.map_singleton, List.mem_singleton] at hb
    have hle := hk.le x hx
    omega
  le x hx := by
    rw [hsubs] at hx
    rw [hcounter]
    rcases List.mem_append.1 hx with hx | hx
    · exact Nat.le_succ_of_le (hk.le x hx)
    · exact Nat.le_of_eq (congrArg Prod.fst (List.mem_singleton.1 hx))

/-- The only entry of an object is that of its sid. -/
theorem Keyed.not_mem_delete (hk : h.Keyed) (hs : h.objs[o]? = some s) (sid : Nat) :
    (sid, o) ∉ ProtocolHandler.delete h.subs s.sid := by
  intro hmem
  obtain ⟨hold, hne⟩ := mem_delete.1 hmem
  obtain ⟨x, hx, hxsid⟩ := hk.mem sid o hold
  rw [hs, Option.some.injEq] at hx
  exact hne (by rw [hx, hxsid])

/-- What a call does: the link takes some steps, the table stays in order, and the SUBs queued have
new sids. -/
structure Advances (h h' : ProtocolHandler μ E) : Prop where
  link : ∃ es, run Link.step h.link es = some h'.link
  keyed : h.Keyed → h'.Keyed
  counter : h.sidCounter ≤ h'.sidCounter
  carries : ∃ xs, h.link.Carries h'.link xs ∧ xs.Nodup ∧
    ∀ x ∈ xs, h.sidCounter < x ∧ x ≤ h'.sidCounter

theorem Advances.trans (ha : Advances h h') (ha' : Advances h' h'') : Advances h h'' where
  link := by
    obtain ⟨es, hes⟩ := ha.link
    obtain ⟨es', hes'⟩ := ha'.link
    exact ⟨es ++ es', run_append hes hes'⟩
  keyed hk := ha'.keyed (ha.keyed hk)
  counter := Nat.le_trans ha.counter ha'.counter
  carries := by
    obtain ⟨xs, hxs, hnodup, hrange⟩ := ha.carries
    obtain ⟨ys, hys, hnodup', hrange'⟩ := ha'.carries
    refine ⟨xs ++ ys, hxs.trans hys, ?_, ?_⟩
    · rw [List.nodup_append]
      refine ⟨hnodup, hnodup', ?_⟩
      intro a hx b hy heq
      have hle := (hrange a hx).2
      have hlt := (hrange' b hy).1
      omega
    · intro x hx
      rcases List.mem_append.1 hx with hx | hx
      · exact ⟨(hrange x hx).1, Nat.le_trans (hrange x hx).2 ha'.counter⟩
      · exact ⟨Nat.lt_of_le_of_lt ha.counter (hrange' x hx).1, (hrange' x hx).2⟩

/-- A call that queues no SUB and leaves table and counter alone. -/
theorem advances_of_link (hlink : ∃ es, run Link.step h.link es = some h'.link)
    (hcarries : h.link.Carries h'.link [])
    (hcounter : h'.sidCounter = h.sidCounter) (hsubs : h'.subs = h.subs)
    (hobjs : ∀ (o : Nat) (s : SubscriptionImpl μ E), h.objs[o]? = some s →
      ∃ s', h'.objs[o]? = some s' ∧ s'.sid = s.sid) : Advances h h' where
  link := hlink
  keyed hk := by
    constructor
    · intro sid o hmem
      rw [hsubs] at hmem
      obtain ⟨s, hs, hsid⟩ := hk.mem sid o hmem
      obtain ⟨s', hs', hsid'⟩ := hobjs o s hs
      exact ⟨s', hs', hsid'.trans hsid⟩
    · rw [hsubs]
      exact hk.nodup
    · rw [hsubs, hcounter]
      exact hk.le
  counter := Nat.le_of_eq hcounter.symm
  carries := ⟨[], hcarries, List.nodup_nil, fun x hx => by cases hx⟩

theorem Advances.refl (h : ProtocolHandler μ E) : Advances h h :=
  advances_of_link ⟨[], rfl⟩ (.refl _) rfl rfl fun _ s hs => ⟨s, hs, rfl⟩

/-- An object changes under its sid. -/
theorem advances_setObj (hs : h.objs[o]? = some s) (hsid : s'.sid = s.sid) :
    Advances h (h.setObj o s') := by
  refine advances_of_link ⟨[], rfl⟩ (.refl _) rfl rfl ?_
  intro i x hx
  cases Nat.decEq i o with
  | isTrue hi =>
      subst hi
      rw [hs, Option.some.injEq] at hx
      exact ⟨s', setObj_self hs, by rw [hsid, hx]⟩
  | isFalse hi => exact ⟨x, (setObj_ne hi).trans hx, rfl⟩

theorem advances_link {l : Link} (hlink : ∃ es, run Link.step h.link es = some l)
    (hcarries : h.link.Carries l []) : Advances h { h with link := l } :=
  advances_of_link hlink hcarries rfl rfl fun _ s hs => ⟨s, hs, rfl⟩

/-- Entries leave the table. -/
theorem advances_delete (h : ProtocolHandler μ E) (sid : Nat) :
    Advances h { h with subs := delete h.subs sid } where
  link := ⟨[], rfl⟩
  keyed hk := hk.delete sid
  counter := Nat.le_refl _
  carries := ⟨[], .refl _, List.nodup_nil, fun x hx => by cases hx⟩

/-- An object without an entry enters the table under a new sid, with its SUB. -/
theorem advances_insert (hout : h.Keyed → ∀ sid, (sid, o) ∉ h.subs)
    (hobj : h'.objs[o]? = some s) (hsid : s.sid = h.sidCounter + 1)
    (hobjs : ∀ i x, i ≠ o → h.objs[i]? = some x → h'.objs[i]? = some x)
    (hsubs : h'.subs = h.subs ++ [(h.sidCounter + 1, o)])
    (hcounter : h'.sidCounter = h.sidCounter + 1)
    (hlink : ∃ es, run Link.step h.link es = some h'.link)
    (hcarries : h.link.Carries h'.link [h.sidCounter + 1]) : Advances h h' where
  link := hlink
  keyed hk := hk.insert (hout hk) hobj hsid hobjs hsubs hcounter
  counter := by
    rw [hcounter]
    exact Nat.le_succ _
  carries := by
    refine ⟨_, hcarries, List.nodup_singleton _, ?_⟩
    intro x hx
    rw [List.mem_singleton.1 hx, hcounter]
    exact ⟨Nat.lt_succ_self _, Nat.le_refl _⟩

/-! ### The calls -/

theorem sid_unsub (s : SubscriptionImpl μ E) (max : Option Nat) (closed : Bool) :
    (s.unsub max closed).sid = s.sid := by
  cases closed <;> rfl

theorem sid_close (s : SubscriptionImpl μ E) : s.close.sid = s.sid :=
  congrArg Prod.fst s.registration_close

theorem advances_unsub (hs : h.objs[o]? = some s) (max : Option Nat) :
    Advances h (h.unsub o s max) := by
  rw [unsub]
  split
  · exact .refl h
  · have hsent : Advances h (h.sendCommand (.unsub s.sid (SubscriptionImpl.limitOf max))) :=
      advances_link ⟨[.command _], rfl⟩ (carries_sendCommand _ _)
    exact hsent.trans (advances_setObj hs (sid_unsub s max false))

theorem unsub_getElem? (hs : h.objs[o]? = some s) (max : Option Nat) :
    (h.unsub o s max).objs[o]? = some (s.unsub max h.link.closed) := by
  rw [unsub]
  cases hclosed : h.link.closed with
  | true =>
      rw [if_pos rfl]
      exact hs
  | false =>
      rw [if_neg Bool.false_ne_true]
      exact setObj_self (h := h.sendCommand _) hs

theorem advances_cancel (hs : h.objs[o]? = some s) : Advances h (h.cancel o s) :=
  (advances_setObj hs (sid_close s)).trans (advances_delete _ s.sid)

theorem advances_unsubscribe (h : ProtocolHandler μ E) (o : Nat) (max : Option Nat) :
    Advances h (h.unsubscribe o max) := by
  cases hs : h.objs[o]? with
  | none =>
      simp only [unsubscribe, hs]
      exact .refl h
  | some s =>
      have hunsub := advances_unsub hs max
      simp only [unsubscribe, hs]
      split
      · exact hunsub.trans (advances_cancel (unsub_getElem? hs max))
      · exact hunsub

theorem advances_subscribe (h : ProtocolHandler μ E) (opts : SubscriptionOptions) :
    Advances h (h.subscribe opts) := by
  have hnew : Advances h (({ h with
      sidCounter := h.sidCounter + 1
      objs := h.objs ++ [{ SubscriptionImpl.new opts.subject opts.queue opts.max opts.callback
        opts.timeout with sid := h.sidCounter + 1 }]
      subs := h.subs ++ [(h.sidCounter + 1, h.objs.length)] } : ProtocolHandler μ E).sendCommand
        (SubscriptionImpl.subCommand ({ SubscriptionImpl.new opts.subject opts.queue opts.max
          opts.callback opts.timeout with sid := h.sidCounter + 1 } : SubscriptionImpl μ E))) := by
    refine advances_insert ?_ List.getElem?_concat_length rfl ?_ rfl rfl ⟨[.command _], rfl⟩
      (carries_sendCommand _ _)
    · intro hk sid hmem
      obtain ⟨s, hs, -⟩ := hk.mem sid _ hmem
      exact absurd (List.getElem?_eq_some_iff.1 hs).1 (Nat.lt_irrefl _)
    · intro i x _ hx
      exact (List.getElem?_append_left (List.getElem?_eq_some_iff.1 hx).1).trans hx
  rw [subscribe]
  split
  · exact hnew.trans (advances_unsubscribe _ _ _)
  · exact hnew

theorem advances_resub (h : ProtocolHandler μ E) (o : Nat) (subject : String) :
    Advances h (h.resub o subject) := by
  cases hs : h.objs[o]? with
  | none =>
      simp only [resub, hs]
      exact .refl h
  | some s =>
      simp only [resub, hs]
      split
      · exact .refl h
      · next hopen =>
          have hclosed : h.link.closed = false := Bool.eq_false_iff.2 hopen
          have hobj := unsub_getElem? hs none
          have hcounter : (h.unsub o s none).sidCounter = h.sidCounter := by
            rw [unsub, hclosed, if_neg Bool.false_ne_true]
            rfl
          have hsubs : (h.unsub o s none).subs = h.subs := by
            rw [unsub, hclosed, if_neg Bool.false_ne_true]
            rfl
          have hout : Advances h { h.unsub o s none with subs := delete h.subs s.sid } := by
            have hdelete := advances_delete (h.unsub o s none) s.sid
            rw [hsubs] at hdelete
            exact (advances_unsub hs none).trans hdelete
          apply hout.trans
          refine advances_insert (o := o) ?_ (setObj_self hobj) ?_ ?_ ?_ ?_ ⟨[.command _], rfl⟩ ?_
          · -- the entry of the object was the deleted one
            intro hk sid hmem
            obtain ⟨x, hx, hxsid⟩ := hk.mem sid o hmem
            rw [show ({ h.unsub o s none with subs := delete h.subs s.sid } :
              ProtocolHandler μ E).objs[o]? = some (s.unsub none h.link.closed) from hobj,
              Option.some.injEq] at hx
            apply (mem_delete.1 hmem).2
            rw [← hxsid, ← hx, sid_unsub]
          · rw [hcounter]
          · intro i x hi hx
            exact (setObj_ne hi).trans hx
          · rw [hcounter]
            rfl
          · rw [hcounter]
            rfl
          · show Carries (h.unsub o s none).link _ [(h.unsub o s none).sidCounter + 1]
            rw [hcounter]
            exact carries_sendCommand _ _

theorem advances_drainSub (h : ProtocolHandler μ E) (o : Nat) : Advances h (h.drainSub o) := by
  cases hs : h.objs[o]? with
  | none =>
      simp only [drainSub, hs]
      exact .refl h
  | some s =>
      simp only [drainSub, hs]
      split
      · exact .refl h
      · have hset : Advances h (h.setObj o { s with draining := true }) := advances_setObj hs rfl
        have hunsub := hset.trans (advances_unsub (setObj_self hs) none)
        apply hunsub.trans
        exact advances_of_link ⟨[.flush], rfl⟩ (carries_flush _) rfl rfl fun _ s hs => ⟨s, hs, rfl⟩

theorem advances_drained (h : ProtocolHandler μ E) (o d : Nat) : Advances h (h.drained o d) := by
  cases hs : h.objs[o]? with
  | none =>
      simp only [drained, hs]
      exact .refl h
  | some s =>
      simp only [drained, hs]
      apply (advances_cancel hs).trans
      exact advances_of_link ⟨[], rfl⟩ (.refl _) rfl rfl fun _ s hs => ⟨s, hs, rfl⟩

theorem advances_closeSubscriptions (h : ProtocolHandler μ E) :
    Advances h h.closeSubscriptions := by
  apply h.closeSubscriptions_induction (P := Advances h) (.refl h)
  intro _ o s hs hadvances
  exact hadvances.trans (advances_setObj hs (sid_close s))

theorem advances_setLink {l : Link} (hlink : ∃ es, run Link.step h.link es = some l)
    (hcarries : h.link.Carries l []) : Advances h (h.setLink l) := by
  rw [setLink]
  split
  · exact (advances_closeSubscriptions h).trans (advances_link hlink hcarries)
  · exact advances_link hlink hcarries

/-- **Calls.** -/
theorem advances_call (h : ProtocolHandler μ E) (c : Call) : Advances h (h.call c) := by
  cases c with
  | subscribe opts => exact advances_subscribe h opts
  | unsubscribe o max => exact advances_unsubscribe h o max
  | drain o => exact advances_drainSub h o
  | resub o subject => exact advances_resub h o subject
  | publish proto payload => exact advances_link ⟨[.command _], rfl⟩ (carries_sendCommand _ _)
  | flush => exact advances_link ⟨[.flush], rfl⟩ (carries_flush _)
  | reconnect =>
      rw [call]
      split
      · exact advances_link ⟨[.disconnect], rfl⟩ (carries_closed rfl rfl)
      · exact .refl h
  | close => exact advances_setLink ⟨[.close], rfl⟩ (carries_close _)

theorem advances_calls (h : ProtocolHandler μ E) (cs : List Call) : Advances h (h.calls cs) := by
  induction cs generalizing h with
  | nil => exact .refl h
  | cons c cs ih => exact (advances_call h c).trans (ih (h.call c))

theorem advances_processMsg (h : ProtocolHandler μ E) (sid : Nat) (v : μ) (cs : List Call) :
    Advances h (h.processMsg sid v cs) := by
  rw [processMsg]
  split
  · exact .refl h
  · next o _ =>
      split
      · exact .refl h
      · next s hs =>
          have hreceive : Advances h (h.setObj o s.receive) := advances_setObj hs rfl
          have hdispatch : Advances h ((h.setObj o s.receive).dispatch o s.receive v cs) := by
            apply hreceive.trans
            rw [dispatch]
            split
            · exact advances_calls _ cs
            · exact advances_setObj (setObj_self hs)
                (congrArg Prod.fst (SubscriptionImpl.registration_push s.receive v))
          apply hdispatch.trans
          rw [checkMax]
          split
          · exact .refl _
          · split
            · exact advances_unsubscribe _ _ _
            · exact .refl _

theorem advances_timeout (hs : h.objs[o]? = some s) (err : E) (cs : List Call) :
    Advances h (h.timeout o s err cs) := by
  have hset : Advances h (h.setObj o { s.stop (some err) with timer := false }) :=
    advances_setObj hs (congrArg Prod.fst (SubscriptionImpl.registration_stop s (some err)))
  rw [timeout]
  split
  · exact hset.trans (advances_calls _ cs)
  · exact hset

/-! ## Over all runs -/

/-- Every sid that is on its way was used once, and an open transport of a connection that is not up
took no SUB. -/
structure Once (h : ProtocolHandler μ E) : Prop where
  link : h.link.Inv
  keyed : h.Keyed
  nodup : h.link.subs.Nodup
  le : ∀ sid ∈ h.link.subs, sid ≤ h.sidCounter
  idle : h.link.connected = false → h.link.transport.done = false →
    subSids h.link.transport.sent = []

theorem once_new (pendingLimit maxOut : Nat) :
    (new pendingLimit maxOut : ProtocolHandler μ E).Once where
  link := Link.inv_new _ _
  keyed := ⟨fun _ _ hmem => (by cases hmem), List.nodup_nil, fun _ hx => (by cases hx)⟩
  nodup := List.nodup_nil
  le := fun _ hmem => by cases hmem
  idle := fun _ _ => rfl

/-- **A call.** -/
theorem Once.advance (h₁ : h.Once) (ha : Advances h h') : h'.Once where
  link := by
    obtain ⟨es, hes⟩ := ha.link
    exact invariant_run (fun _ _ _ hi hstep => Link.inv_step hi hstep) hes h₁.link
  keyed := ha.keyed h₁.keyed
  nodup := by
    obtain ⟨xs, hxs, hnodup, hrange⟩ := ha.carries
    apply hxs.subs.nodup
    rw [List.nodup_append]
    refine ⟨h₁.nodup, hnodup, ?_⟩
    intro a hmem b hb heq
    have hle := h₁.le a hmem
    have hlt := (hrange b hb).1
    omega
  le := by
    intro sid hmem
    obtain ⟨xs, hxs, -, hrange⟩ := ha.carries
    rcases List.mem_append.1 (hxs.subs.subset hmem) with hold | hnew
    · exact Nat.le_trans (h₁.le sid hold) ha.counter
    · exact (hrange sid hnew).2
  idle := by
    intro hoff hopen
    obtain ⟨xs, hxs, -, -⟩ := ha.carries
    obtain ⟨hoff', hopen', hsent⟩ := hxs.idle hoff hopen
    rw [hsent]
    exact h₁.idle hoff' hopen'

/-- The SUBs of the replay are those of the table. -/
theorem subSids_subCommands (hk : h.Keyed) :
    subSids (h.subCommands.map .command) = h.subs.map Prod.fst := by
  have hall : ∀ subs : List (Nat × Nat), (∀ x ∈ subs, ∃ s, h.objs[x.2]? = some s ∧ s.sid = x.1) →
      subSids ((subs.filterMap fun x => (h.objs[x.2]?).map SubscriptionImpl.subCommand).map
        .command) = subs.map Prod.fst := by
    intro subs
    induction subs with
    | nil => exact fun _ => rfl
    | cons x subs ih =>
        intro hmem
        obtain ⟨s, hs, hsid⟩ := hmem x List.mem_cons_self
        rw [List.filterMap_cons, hs, Option.map_some, List.map_cons, List.map_cons, ← hsid]
        exact congrArg (s.sid :: ·) (ih fun y hy => hmem y (List.mem_cons_of_mem x hy))
  exact hall h.subs fun x hx => hk.mem x.1 x.2 hx

/-- The condition on the end of a dial: the transport is closed, or no subscription of the table has
its SUB in the outbound buffer. -/
def Fresh (h : ProtocolHandler μ E) : Event μ E → Prop
  | .dialDone => h.link.transport.done = true ∨ ∀ x ∈ h.subs, x.1 ∉ subSids h.link.outbound
  | _ => True

instance : (h : ProtocolHandler μ E) → (e : Event μ E) → Decidable (h.Fresh e)
  | _, .dialDone => inferInstanceAs (Decidable (_ ∨ _))
  | _, .call _ | _, .drained _ _ | _, .message _ _ _ | _, .timeout _ _ _ | _, .next _ | _, .stop _ _
  | _, .leave _ | _, .link _ => inferInstanceAs (Decidable True)

/-- The SUBs behind the end of a dial: those of the table are sent, and the buffer behind them. -/
theorem subs_dialDone (l : Link) (cmds : List Command) :
    (l.dialDone cmds).subs.Sublist
      (subSids l.transport.sent ++
        ((if l.transport.done then [] else subSids (cmds.map .command)) ++ subSids
          l.outbound)) := by
  have hflush := (carries_flushPending (({ l with
    connected := true
    connectError := false
    loop := .idle } : Link).send (cmds.map .command))).subs
  rw [List.append_nil] at hflush
  have hsame : (l.dialDone cmds).subs = (Link.flushPending (({ l with
      connected := true
      connectError := false
      loop := .idle } : Link).send (cmds.map .command))).subs := rfl
  rw [hsame]
  apply hflush.trans
  cases hdone : l.transport.done with
  | true =>
      rw [Link.subs, Link.send, Transport.send_of_done hdone, if_pos rfl, List.nil_append]
  | false =>
      rw [Link.subs, Link.send, Transport.send_of_open (by rw [hdone]; exact Bool.false_ne_true),
        if_neg Bool.false_ne_true, subSids_append, List.append_assoc]

/-- **The end of a dial.** -/
theorem Once.dialDone (h₁ : h.Once) (hfresh : h.Fresh .dialDone) (hdialing : h.link.loop = .dialing)
    (hlink : (h.link.dialDone h.subCommands).Inv) :
    ({ h with link := h.link.dialDone h.subCommands } : ProtocolHandler μ E).Once := by
  have hsub := subs_dialDone h.link h.subCommands
  rw [subSids_subCommands h₁.keyed] at hsub
  have hidle : ∀ P : Prop, (h.link.dialDone h.subCommands).connected = false → P := by
    intro P hoff
    rw [Link.connected_dialDone] at hoff
    cases hoff
  have hkeyed : ({ h with link := h.link.dialDone h.subCommands } : ProtocolHandler μ E).Keyed :=
    ⟨h₁.keyed.mem, h₁.keyed.nodup, h₁.keyed.le⟩
  have hnodup := h₁.nodup
  rw [Link.subs] at hnodup
  cases hdone : h.link.transport.done with
  | true =>
      rw [hdone, if_pos rfl, List.nil_append] at hsub
      exact ⟨hlink, hkeyed, hsub.nodup hnodup, fun sid hmem => h₁.le sid (hsub.subset hmem),
        hidle _⟩
  | false =>
      have hoff : h.link.connected = false := by
        apply h₁.link.controlled.off
        rw [hdialing]
        decide
      have hdisjoint : ∀ x ∈ h.subs, x.1 ∉ subSids h.link.outbound := by
        rcases hfresh with hclosed | hdisjoint
        · rw [hdone] at hclosed
          cases hclosed
        · exact hdisjoint
      -- nothing was subscribed on this connection yet
      rw [h₁.idle hoff hdone, List.nil_append] at hsub hnodup
      rw [hdone, if_neg Bool.false_ne_true] at hsub
      refine ⟨hlink, hkeyed, hsub.nodup ?_, ?_, hidle _⟩
      · rw [List.nodup_append]
        refine ⟨h₁.keyed.nodup, hnodup, ?_⟩
        intro a ha b hb heq
        obtain ⟨x, hx, rfl⟩ := List.mem_map.1 ha
        exact hdisjoint x hx (heq ▸ hb)
      · intro sid hmem
        rcases List.mem_append.1 (hsub.subset hmem) with hmem | hmem
        · obtain ⟨x, hx, rfl⟩ := List.mem_map.1 hmem
          exact h₁.keyed.le x hx
        · exact h₁.le sid (List.mem_append_right _ hmem)

/-- A dial starts on a new transport and an empty buffer. -/
theorem Once.prepare (h₁ : h.Once) (hlink : ({ h.link.prepare with loop := .dialing } : Link).Inv) :
    (h.setLink { h.link.prepare with loop := .dialing }).Once := by
  have hkept : h.setLink { h.link.prepare with loop := .dialing } =
      { h with link := { h.link.prepare with loop := .dialing } } := setLink_of_closed rfl
  rw [hkept]
  exact ⟨hlink, ⟨h₁.keyed.mem, h₁.keyed.nodup, h₁.keyed.le⟩, List.nodup_nil,
    fun _ hmem => (by cases hmem), fun _ _ => rfl⟩

/-- **One event** that neither starts nor ends a dial. -/
theorem advances_step {e : Event μ E} (hc : h.link.Controlled) (hprepare : e ≠ .link .prepare)
    (hdone : e ≠ .dialDone) (hstep : h.step e = some h') : Advances h h' := by
  cases step_of_eq hstep with
  | call c => exact advances_call h c
  | drained o d => exact advances_drained h o d
  | message sid v cs => exact advances_processMsg h sid v cs
  | timeout o s err cs hs => exact advances_timeout hs err cs
  | next o s s' hs hnext =>
      exact advances_setObj hs (congrArg Prod.fst (SubscriptionImpl.registration_next hnext))
  | stop o s err hs =>
      exact advances_setObj hs (congrArg Prod.fst (SubscriptionImpl.registration_stop s err))
  | leave o s hs =>
      exact advances_setObj hs (congrArg Prod.fst (SubscriptionImpl.registration_leave s))
  | dialDone => exact absurd rfl hdone
  | link e l hinternal hlink =>
      apply advances_setLink ⟨[e], run_cons hlink run_nil⟩
      refine carries_step hc hinternal ?_ hlink
      rintro rfl
      exact hprepare rfl

/-- **One event** that meets the condition. -/
theorem once_step {e : Event μ E} (h₁ : h.Once) (hfresh : h.Fresh e) (hstep : h.step e = some h') :
    h'.Once := by
  by_cases hdone : e = .dialDone
  · subst hdone
    cases step_of_eq hstep with
    | dialDone l _ hlink =>
        have hinv := Link.inv_step h₁.link hlink
        cases Link.step_of_eq hlink with
        | dialDone _ _ _ hdialing => exact h₁.dialDone hfresh hdialing hinv
  · by_cases hprepare : e = .link .prepare
    · subst hprepare
      cases step_of_eq hstep with
      | link _ l _ hlink =>
          have hinv := Link.inv_step h₁.link hlink
          cases Link.step_of_eq hlink with
          | prepare => exact h₁.prepare hinv
    · exact h₁.advance (advances_step h₁.link.controlled hprepare hdone hstep)

/-- **No duplicate interest**, in the runs whose dials complete on a closed transport or with no SUB
of the table in the outbound buffer: every sid is subscribed at most once on a connection. -/
theorem sub_once_of_fresh (pendingLimit maxOut : Nat) (es : List (Event μ E))
    (hrun : run step (new pendingLimit maxOut) es = some h)
    (hfresh : Meets step Fresh (new pendingLimit maxOut) es) (sid : Nat) :
    (subSids h.link.transport.sent).count sid ≤ 1 := by
  have honce : h.Once :=
    invariant_run_of_meets (fun _ _ _ h₁ hok hstep => once_step h₁ hok hstep) hrun
    hfresh (once_new _ _)
  have hnodup : (subSids h.link.transport.sent).Nodup :=
    honce.nodup.sublist (List.sublist_append_left _ _)
  exact List.nodup_iff_count_le_one.1 hnodup sid

/-- A dial, with the handshake that completes it. -/
def dialed : List (Event Unit Unit) :=
  [.link .prepare, .link (.info (some "")), .link .pong, .dialDone]

/-- A subscription is made on a connection, and another one when it is lost. -/
def redialed : List (Event Unit Unit) :=
  dialed ++
    [.call (.subscribe ⟨"a", none, none, true, false⟩), .link .disconnect,
      .link (.closedNotification true), .call (.subscribe ⟨"b", none, none, true, false⟩)] ++
    dialed

/-- The dial drops the SUB in the buffer, and the replay sends it. -/
theorem sub_once_of_fresh_redialed :
    ∃ h : ProtocolHandler Unit Unit, run step (new 32768 2) redialed = some h ∧
      (subSids h.link.transport.sent).count 2 ≤ 1 :=
  ⟨_, rfl, sub_once_of_fresh 32768 2 redialed rfl (by decide) 2⟩

/-- A subscription made during the dial is in the table and in the outbound buffer when the
handshake completes, and both write its SUB. -/
theorem not_sub_once :
    ¬ ∀ (es : List (Event Unit Unit)) (h : ProtocolHandler Unit Unit),
      run step (new 32768 2) es = some h →
        ∀ sid, (subSids h.link.transport.sent).count sid ≤ 1 := by
  intro hall
  have honce :=
    hall (dialed ++ [.link .disconnect, .link (.closedNotification true), .link .prepare,
    .call (.subscribe ⟨"a", none, none, true, false⟩), .link .flushTask, .link (.info (some "")),
    .link .pong, .dialDone]) _ rfl 1
  revert honce
  decide

/-- What the end of a dial sends. -/
theorem sent_dialDone {l : Link} (cmds : List Command) (hopen : l.transport.done = false)
    (hinfo : l.infoReceived = true) (hsize : l.size ≠ 0) :
    (l.dialDone cmds).transport.sent =
      l.transport.sent ++ cmds.map .command ++ l.outbound := by
  have hsend : (l.transport.send (cmds.map .command)) =
      { l.transport with sent := l.transport.sent ++ cmds.map .command } :=
    Transport.send_of_open (by rw [hopen]; exact Bool.false_ne_true) _
  have hflush : Link.flushPending (({ l with
      connected := true
      connectError := false
      loop := .idle } : Link).send (cmds.map .command)) =
      { ({ l with
        connected := true
        connectError := false
        loop := .idle
        transport := (l.transport.send (cmds.map .command)).send l.outbound } : Link) with
        outbound := [] } := by
    have hpos : (({ l with
        connected := true
        connectError := false
        loop := .idle } : Link).send (cmds.map .command)).size ≠ 0 := hsize
    rw [Link.flushPending, if_pos (by simp only [Link.send, hinfo, Bool.and_self]), if_pos hpos]
    rfl
  rw [Link.dialDone, hflush, hsend]
  show (Transport.send { l.transport with sent := l.transport.sent ++ cmds.map .command }
    l.outbound).sent = _
  rw [Transport.send_of_open (by
    show ¬ l.transport.done = true
    rw [hopen]
    exact Bool.false_ne_true)]

/-- **The condition is exact**: a dial that completes with an open transport and a SUB of the table
in the outbound buffer subscribes a sid twice. -/
theorem sub_twice_of_not_fresh (h₁ : h.Once) (hnot : ¬ h.Fresh .dialDone)
    (hstep : h.step .dialDone = some h') :
    ∃ sid, 2 ≤ (subSids h'.link.transport.sent).count sid := by
  simp only [Fresh, not_or, not_forall, not_not] at hnot
  obtain ⟨hopen, x, hx, hsub⟩ := hnot
  cases step_of_eq hstep with
  | dialDone l _ hlink =>
      have hinv := Link.inv_step h₁.link hlink
      cases Link.step_of_eq hlink with
      | dialDone =>
          have hinfo : h.link.infoReceived = true := by
            have hreceived := hinv.paired.info_of_connected (Link.connected_dialDone _ _)
            rwa [Link.infoReceived_dialDone] at hreceived
          have hsize : h.link.size ≠ 0 := by
            apply Nat.pos_iff_ne_zero.1
            apply List.sum_pos_iff_exists_pos_nat.2
            obtain ⟨subject, queue, hmem⟩ := mem_subSids.1 hsub
            refine ⟨_, List.mem_map_of_mem hmem, ?_⟩
            exact Command.line_pos fun _ _ hpub => by cases hpub
          refine ⟨x.1, ?_⟩
          show 2 ≤ (subSids (h.link.dialDone h.subCommands).transport.sent).count x.1
          rw [sent_dialDone _ (Bool.eq_false_iff.2 hopen) hinfo hsize, subSids_append,
            subSids_append, subSids_subCommands h₁.keyed, List.count_append, List.count_append]
          -- the replay has the SUBs of the table, and the buffer the one that was not dropped
          have htable : 0 < (h.subs.map Prod.fst).count x.1 :=
            List.count_pos_iff.2 (List.mem_map_of_mem hx)
          have hbuffer : 0 < (subSids h.link.outbound).count x.1 := List.count_pos_iff.2 hsub
          omega

end ProtocolHandler

end NatsClient.Connection
