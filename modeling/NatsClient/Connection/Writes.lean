import NatsClient.Connection.SubFrames

/-!
# Writes to the subscription table

What the protocol handler does to the table and to the objects, whatever happens to it, is a
sequence of few kinds of writes (`Write`): an object changes under its sid, it gets a message, it
gets a limit, leaves the table, or moves to a new sid, or a new one enters it. `Writes` is a
sequence of them, with the sids that were handed out. The calls of a user and of a callback, and the
events of the handler, are read as writes here once; what writes keep, calls and events keep.
-/

set_option autoImplicit false

namespace NatsClient.Connection

open NatsClient.Foundation NatsClient.Iterator

namespace ProtocolHandler

variable {μ E : Type}

/-- What may be written: the limits that subscriptions are made with, the objects that get a limit,
leave the table or move, and whether messages arrive. None does during a call. -/
structure Scope where
  limit : Option Nat → Prop
  object : Nat → Prop
  message : Prop

/-- Everything may be written. -/
def Scope.all : Scope := ⟨fun _ => True, fun _ => True, True⟩

/-- One write. A limit that an object of the table gets is one it has not reached. -/
inductive Write (S : Scope) : ProtocolHandler μ E → List Nat → ProtocolHandler μ E → Prop
  | other {h h' : ProtocolHandler μ E} (objs : h'.objs = h.objs) (subs : h'.subs = h.subs)
      (counter : h'.sidCounter = h.sidCounter) : Write S h [] h'
  | change {h : ProtocolHandler μ E} {o : Nat} {s s' : SubscriptionImpl μ E}
      (found : h.objs[o]? = some s) (kind : s'.noIterator = s.noIterator) (sid : s'.sid = s.sid)
      (received : s'.received = s.received) (max : s'.max = s.max) : Write S h [] (h.setObj o s')
  | limit {h : ProtocolHandler μ E} {o : Nat} {s s' : SubscriptionImpl μ E} (within : S.object o)
      (found : h.objs[o]? = some s) (kind : s'.noIterator = s.noIterator) (sid : s'.sid = s.sid)
      (received : s'.received = s.received) (max : ∀ m, s'.max = some m → s'.received < m) :
      Write S h [] (h.setObj o s')
  | receive {h : ProtocolHandler μ E} {o : Nat} {s : SubscriptionImpl μ E} (within : S.message)
      (found : h.objs[o]? = some s) : Write S h [] (h.setObj o s.receive)
  | release {h : ProtocolHandler μ E} {o : Nat} {s s' : SubscriptionImpl μ E} (within : S.object o)
      (found : h.objs[o]? = some s) (kind : s'.noIterator = s.noIterator) (sid : s'.sid = s.sid)
      (received : s'.received = s.received) :
      Write S h [] { h.setObj o s' with subs := delete h.subs s.sid }
  | add {h : ProtocolHandler μ E} {s : SubscriptionImpl μ E} (sid : s.sid = h.sidCounter + 1)
      (received : s.received = 0) (max : S.limit s.max) :
      Write S h [h.sidCounter + 1]
        { h with
          objs := h.objs ++ [s]
          subs := h.subs ++ [(h.sidCounter + 1, h.objs.length)]
          sidCounter := h.sidCounter + 1 }
  | resub {h : ProtocolHandler μ E} {o : Nat} {s s' : SubscriptionImpl μ E} (within : S.object o)
      (found : h.objs[o]? = some s) (kind : s'.noIterator = s.noIterator)
      (sid : s'.sid = h.sidCounter + 1) (received : s'.received = s.received)
      (max : s'.max = none) :
      Write S h [h.sidCounter + 1]
        { h.setObj o s' with
          subs := delete h.subs s.sid ++ [(h.sidCounter + 1, o)]
          sidCounter := h.sidCounter + 1 }

/-- Writes in order. -/
inductive Writes (S : Scope) :
    ProtocolHandler μ E → List Nat → ProtocolHandler μ E → Prop
  | refl (h : ProtocolHandler μ E) : Writes S h [] h
  | head {h h' h'' : ProtocolHandler μ E} {sids sids' : List Nat} (write : Write S h sids h')
      (rest : Writes S h' sids' h'') : Writes S h (sids ++ sids') h''

variable {S : Scope} {h h' h'' : ProtocolHandler μ E}
  {s s' : SubscriptionImpl μ E} {o : Nat} {sids sids' : List Nat}

theorem Write.writes (hw : Write S h sids h') : Writes S h sids h' := by
  have hone := Writes.head hw (.refl h')
  rwa [List.append_nil] at hone

theorem Writes.trans (hw : Writes S h sids h') (hw' : Writes S h' sids' h'') :
    Writes S h (sids ++ sids') h'' := by
  induction hw with
  | refl => exact hw'
  | head write _ ih =>
      rw [List.append_assoc]
      exact .head write (ih hw')

/-! ### What the methods write -/

theorem noIterator_close (s : SubscriptionImpl μ E) : s.close.noIterator = s.noIterator := by
  unfold SubscriptionImpl.close
  split
  · rfl
  · split <;> rfl

theorem noIterator_next (hnext : s.next = some s') : s'.noIterator = s.noIterator := by
  unfold SubscriptionImpl.next at hnext
  split at hnext
  · cases hnext
    rfl
  · cases hnext

/-- What the table goes by is as before. -/
theorem writes_of_registration (hs : h.objs[o]? = some s) (hkind : s'.noIterator = s.noIterator)
    (hreg : s'.registration = s.registration) : Writes S h [] (h.setObj o s') := by
  simp only [SubscriptionImpl.registration, Prod.mk.injEq] at hreg
  obtain ⟨hsid, -, -, -, hmax, hreceived⟩ := hreg
  exact (Write.change hs hkind hsid hreceived hmax).writes

theorem writes_other (hobjs : h'.objs = h.objs) (hsubs : h'.subs = h.subs)
    (hcounter : h'.sidCounter = h.sidCounter) : Writes S h [] h' :=
  (Write.other hobjs hsubs hcounter).writes

/-- The two parts write, and the first hands out nothing. -/
theorem Writes.then (hw : Writes S h sids h') (hw' : Writes S h' [] h'') :
    Writes S h sids h'' := by
  have hboth := hw.trans hw'
  rwa [List.append_nil] at hboth

theorem writes_cancel (ho : S.object o) (hs : h.objs[o]? = some s) :
    Writes S h [] (h.cancel o s) := by
  have hreg := s.registration_close
  simp only [SubscriptionImpl.registration, Prod.mk.injEq] at hreg
  exact (Write.release ho hs (noIterator_close s) hreg.1 hreg.2.2.2.2.2).writes

/-- The limit goes, or it is one that is not reached. -/
theorem writes_unsub (ho : S.object o) (hs : h.objs[o]? = some s) (max : Option Nat)
    (hmax : ∀ m, max = some m → s.received < m) : Writes S h [] (h.unsub o s max) := by
  rw [unsub]
  split
  · exact .refl h
  · have hsent : Writes S h [] (h.sendCommand (.unsub s.sid (SubscriptionImpl.limitOf max))) :=
      writes_other rfl rfl rfl
    have hset : Write S (h.sendCommand (.unsub s.sid (SubscriptionImpl.limitOf max))) []
        ((h.sendCommand (.unsub s.sid (SubscriptionImpl.limitOf max))).setObj o
          (s.unsub max false)) :=
      .limit ho hs rfl rfl rfl hmax
    exact hsent.then hset.writes

/-- The limit goes, and the object leaves the table: the two assignments to the object are one
write. -/
theorem writes_unsub_cancel (ho : S.object o) (hs : h.objs[o]? = some s) (max : Option Nat)
    (hclosed : h.link.closed = false) :
    Writes S h [] ((h.unsub o s max).cancel o (s.unsub max false)) := by
  have hsent : Writes S h []
      (h.sendCommand (.unsub s.sid (SubscriptionImpl.limitOf max))) := writes_other rfl rfl rfl
  have hreg := (s.unsub max false).registration_close
  simp only [SubscriptionImpl.registration, Prod.mk.injEq] at hreg
  have hrelease : Write S (h.sendCommand (.unsub s.sid (SubscriptionImpl.limitOf max))) []
      { (h.sendCommand (.unsub s.sid (SubscriptionImpl.limitOf max))).setObj o
          (s.unsub max false).close with subs := delete h.subs s.sid } :=
    .release ho hs (noIterator_close _) hreg.1 hreg.2.2.2.2.2
  refine hsent.then ?_
  rw [unsub, hclosed, if_neg Bool.false_ne_true, cancel, setObj, setObj, List.set_set]
  exact hrelease.writes

/-- Where the limit is reached the object leaves the table at once. -/
theorem writes_unsubscribe (ho : S.object o) (h : ProtocolHandler μ E) (max : Option Nat) :
    Writes S h [] (h.unsubscribe o max) := by
  cases hs : h.objs[o]? with
  | none =>
      simp only [unsubscribe, hs]
      exact .refl h
  | some s =>
      simp only [unsubscribe, hs]
      cases hclosed : h.link.closed with
      | true =>
          have hunsub : h.unsub o s max = h := by rw [unsub, if_pos hclosed]
          rw [hunsub]
          split
          · exact writes_cancel ho hs
          · exact .refl h
      | false =>
          split
          · exact writes_unsub_cancel ho hs max hclosed
          · rename_i hspent
            refine writes_unsub ho hs max fun m hm => ?_
            have hleft : ¬ m ≤ s.received := by
              simpa [SubscriptionImpl.isSpent, SubscriptionImpl.unsub, hm,
                SubscriptionImpl.received] using hspent
            exact Nat.lt_of_not_le hleft

/-- The limit that an object has is set once more. -/
theorem writes_repeat (hs : h.objs[o]? = some s) {m : Nat} (hmax : s.max = some m)
    (hlt : s.received < m) : Writes S h [] (h.unsubscribe o (some m)) := by
  have hspent : ∀ closed, (s.unsub (some m) closed).isSpent = false := by
    intro closed
    have hsame : s.unsub (some m) closed = s := by
      cases closed with
      | true => rfl
      | false => rw [SubscriptionImpl.unsub, if_neg Bool.false_ne_true, ← hmax]
    rw [hsame, SubscriptionImpl.isSpent, hmax]
    exact decide_eq_false (Nat.not_le.2 hlt)
  simp only [unsubscribe, hs, hspent, if_neg Bool.false_ne_true]
  rw [unsub]
  split
  · exact .refl h
  · have hsent : Writes S h [] (h.sendCommand (.unsub s.sid (SubscriptionImpl.limitOf (some m)))) :=
      writes_other rfl rfl rfl
    have hset : Write S (h.sendCommand (.unsub s.sid (SubscriptionImpl.limitOf (some m)))) []
        ((h.sendCommand (.unsub s.sid (SubscriptionImpl.limitOf (some m)))).setObj o
          (s.unsub (some m) false)) := .change hs rfl rfl rfl hmax.symm
    exact hsent.then hset.writes

/-- A subscription that is made. Where it is made with a limit other than `0`, that limit is set
once more. -/
theorem writes_subscribe (h : ProtocolHandler μ E) {opts : SubscriptionOptions}
    (hlimit : S.limit opts.max) : Writes S h [h.sidCounter + 1] (h.subscribe opts) := by
  have hadd : Writes S h [h.sidCounter + 1] { h with
      sidCounter := h.sidCounter + 1
      objs := h.objs ++ [{ SubscriptionImpl.new opts.subject opts.queue opts.max opts.callback
        opts.timeout with sid := h.sidCounter + 1 }]
      subs := h.subs ++ [(h.sidCounter + 1, h.objs.length)] } :=
    (Write.add rfl rfl hlimit).writes
  have hsent : Writes S h [h.sidCounter + 1] (({ h with
      sidCounter := h.sidCounter + 1
      objs := h.objs ++ [{ SubscriptionImpl.new opts.subject opts.queue opts.max opts.callback
        opts.timeout with sid := h.sidCounter + 1 }]
      subs := h.subs ++ [(h.sidCounter + 1, h.objs.length)] } : ProtocolHandler μ E).sendCommand
        (SubscriptionImpl.subCommand ({ SubscriptionImpl.new opts.subject opts.queue opts.max
          opts.callback opts.timeout with sid := h.sidCounter + 1 } : SubscriptionImpl μ E))) :=
    hadd.then (writes_other rfl rfl rfl)
  rw [subscribe]
  split
  · rename_i max hlimitOf
    obtain ⟨hmax, hne⟩ := Option.filter_eq_some_iff.1 hlimitOf
    have hpos : 0 < max := Nat.pos_of_ne_zero (of_decide_eq_true hne)
    refine hsent.then (writes_repeat List.getElem?_concat_length hmax ?_)
    exact hpos
  · exact hsent

/-- The object moves to a new sid, without a limit, unless the connection is closed. -/
theorem writes_resub_open (ho : S.object o) (hs : h.objs[o]? = some s)
    (hclosed : h.link.closed = false) (subject : String) :
    Writes S h [h.sidCounter + 1] (h.resub o subject) := by
  have hsent : Writes S h [] (h.sendCommand (.unsub s.sid none)) := writes_other rfl rfl rfl
  have hmove : Write S (h.sendCommand (.unsub s.sid none)) [h.sidCounter + 1]
      { (h.sendCommand (.unsub s.sid none)).setObj o
          { s.unsub none false with subject := subject, sid := h.sidCounter + 1 } with
        subs := delete h.subs s.sid ++ [(h.sidCounter + 1, o)]
        sidCounter := h.sidCounter + 1 } := .resub ho hs rfl rfl rfl rfl
  simp only [resub, hs, hclosed, if_neg Bool.false_ne_true]
  rw [unsub, hclosed, if_neg Bool.false_ne_true, setObj, setObj, List.set_set]
  exact hsent.trans (hmove.writes.then (writes_other rfl rfl rfl))

theorem writes_drainSub (ho : S.object o) (h : ProtocolHandler μ E) :
    Writes S h [] (h.drainSub o) := by
  cases hs : h.objs[o]? with
  | none =>
      simp only [drainSub, hs]
      exact .refl h
  | some s =>
      simp only [drainSub, hs]
      split
      · exact .refl h
      · have hset : Write S h [] (h.setObj o { s with draining := true }) :=
          .change hs rfl rfl rfl rfl
        have hunsub :=
          hset.writes.then (writes_unsub ho (setObj_self hs) none fun m hm => by cases hm)
        exact hunsub.then (writes_other rfl rfl rfl)

theorem writes_drained (ho : S.object o) (h : ProtocolHandler μ E) (d : Nat) :
    Writes S h [] (h.drained o d) := by
  cases hs : h.objs[o]? with
  | none =>
      simp only [drained, hs]
      exact .refl h
  | some s =>
      simp only [drained, hs]
      exact (writes_cancel ho hs).then (writes_other rfl rfl rfl)

theorem writes_closeSubscriptions (h : ProtocolHandler μ E) :
    Writes S h [] h.closeSubscriptions := by
  apply h.closeSubscriptions_induction (P := Writes S h []) (.refl h)
  intro _ o s hs hwrites
  exact hwrites.then (writes_of_registration hs (noIterator_close s) s.registration_close)

theorem writes_setLink (h : ProtocolHandler μ E) (l : Link) :
    Writes S h [] (h.setLink l) := by
  rw [setLink]
  split
  · exact (writes_closeSubscriptions h).then (writes_other rfl rfl rfl)
  · exact writes_other rfl rfl rfl

/-- What a call may write is in the scope. -/
def Scope.Allows (S : Scope) : Call → Prop
  | .subscribe opts => S.limit opts.max
  | .unsubscribe o _ | .drain o | .resub o _ => S.object o
  | .publish _ _ | .flush | .reconnect | .close => True

/-- **Calls** write to the table. -/
theorem writes_call (h : ProtocolHandler μ E) {c : Call} (hc : S.Allows c) :
    ∃ sids, Writes S h sids (h.call c) := by
  cases c with
  | subscribe opts => exact ⟨_, writes_subscribe h hc⟩
  | unsubscribe o max => exact ⟨_, writes_unsubscribe hc h max⟩
  | drain o => exact ⟨_, writes_drainSub hc h⟩
  | resub o subject =>
      cases hs : h.objs[o]? with
      | none =>
          refine ⟨[], ?_⟩
          simp only [call, resub, hs]
          exact .refl h
      | some s =>
          cases hclosed : h.link.closed with
          | false => exact ⟨_, writes_resub_open hc hs hclosed subject⟩
          | true =>
              refine ⟨[], ?_⟩
              simp only [call, resub, hs, hclosed, if_true]
              exact .refl h
  | publish proto payload => exact ⟨_, writes_other rfl rfl rfl⟩
  | flush => exact ⟨_, writes_other rfl rfl rfl⟩
  | reconnect =>
      refine ⟨[], ?_⟩
      rw [call]
      split <;> exact writes_other rfl rfl rfl
  | close => exact ⟨_, writes_setLink h _⟩

theorem writes_calls (h : ProtocolHandler μ E) {cs : List Call} (hcs : ∀ c ∈ cs, S.Allows c) :
    ∃ sids, Writes S h sids (h.calls cs) := by
  induction cs generalizing h with
  | nil => exact ⟨[], .refl h⟩
  | cons c cs ih =>
      obtain ⟨sids, hcall⟩ := writes_call h (hcs c List.mem_cons_self)
      obtain ⟨sids', hcalls⟩ := ih (h.call c) fun c' hmem => hcs c' (List.mem_cons_of_mem c hmem)
      exact ⟨sids ++ sids', hcall.trans hcalls⟩

/-- The callback of an object, with the calls it makes. -/
theorem writes_dispatch (hs : h.objs[o]? = some s) (v : μ) {cs : List Call}
    (hcs : ∀ c ∈ cs, S.Allows c) : ∃ sids, Writes S h sids (h.dispatch o s v cs) := by
  rw [dispatch]
  split
  · exact writes_calls h hcs
  · exact ⟨[], writes_of_registration hs rfl (SubscriptionImpl.registration_push s v)⟩

theorem writes_checkMax (ho : S.object o) (h : ProtocolHandler μ E) :
    Writes S h [] (h.checkMax o) := by
  rw [checkMax]
  split
  · exact .refl h
  · split
    · exact writes_unsubscribe ho h none
    · exact .refl h

/-- A message is received, its callback runs, and the limit is checked. -/
theorem writes_processMsg (hmessage : S.message) (h : ProtocolHandler μ E) {sid : Nat} (v : μ)
    {cs : List Call} (hcs : ∀ c ∈ cs, S.Allows c) (ho : ∀ o, h.get sid = some o → S.object o) :
    ∃ sids, Writes S h sids (h.processMsg sid v cs) := by
  cases hget : h.get sid with
  | none =>
      simp only [processMsg, hget]
      exact ⟨[], .refl h⟩
  | some o =>
      cases hs : h.objs[o]? with
      | none =>
          simp only [processMsg, hget, hs]
          exact ⟨[], .refl h⟩
      | some s =>
          simp only [processMsg, hget, hs]
          have hreceive : Writes S h [] (h.setObj o s.receive) := (Write.receive hmessage hs).writes
          obtain ⟨sids, hdispatch⟩ := writes_dispatch (setObj_self hs) v hcs
          exact ⟨sids, (hreceive.trans hdispatch).then (writes_checkMax (ho o hget) _)⟩

theorem writes_timeout (hs : h.objs[o]? = some s) (err : E) {cs : List Call}
    (hcs : ∀ c ∈ cs, S.Allows c) : ∃ sids, Writes S h sids (h.timeout o s err cs) := by
  have hset : Writes S h [] (h.setObj o { s.stop (some err) with timer := false }) :=
    writes_of_registration hs rfl (SubscriptionImpl.registration_stop s (some err))
  rw [timeout]
  split
  · obtain ⟨sids, hcalls⟩ :=
      writes_calls (h.setObj o { s.stop (some err) with timer := false }) hcs
    exact ⟨sids, hset.trans hcalls⟩
  · exact ⟨[], hset⟩

/-- The calls that come with an event. -/
def Event.calls : Event μ E → List Call
  | .call c => [c]
  | .message _ _ cs | .timeout _ _ cs => cs
  | .drained _ _ | .next _ | .stop _ _ | .leave _ | .dialDone | .link _ => []

/-- What an event other than a message may write is in the scope. -/
def Scope.Covers (S : Scope) (h : ProtocolHandler μ E) : Event μ E → Prop
  | .drained o _ => S.object o
  | .message sid _ cs => S.message ∧ (∀ o, h.get sid = some o → S.object o) ∧ ∀ c ∈ cs, S.Allows c
  | e => ∀ c ∈ e.calls, S.Allows c

/-- **Events** write to the table. -/
theorem writes_step {e : Event μ E} (he : S.Covers h e) (hstep : h.step e = some h') :
    ∃ sids, Writes S h sids h' := by
  cases step_of_eq hstep with
  | call c => exact writes_call h (he c (List.mem_singleton.2 rfl))
  | drained o d => exact ⟨[], writes_drained he h d⟩
  | message sid v cs => exact writes_processMsg he.1 h v he.2.2 he.2.1
  | timeout o s err cs hs => exact writes_timeout hs err he
  | next o s s' hs hnext =>
      exact ⟨[], writes_of_registration hs (noIterator_next hnext)
        (SubscriptionImpl.registration_next hnext)⟩
  | stop o s err hs =>
      exact ⟨[], writes_of_registration hs rfl (SubscriptionImpl.registration_stop s err)⟩
  | leave o s hs =>
      exact ⟨[], writes_of_registration hs rfl (SubscriptionImpl.registration_leave s)⟩
  | dialDone l => exact ⟨[], writes_other rfl rfl rfl⟩
  | link e l => exact ⟨[], writes_setLink h l⟩

theorem allows_all (c : Call) : Scope.all.Allows c := by
  cases c <;> trivial

theorem covers_all (h : ProtocolHandler μ E) (e : Event μ E) : Scope.all.Covers h e := by
  cases e with
  | drained o d => exact trivial
  | message sid v cs => exact ⟨trivial, fun _ _ => trivial, fun c _ => allows_all c⟩
  | call | timeout | next | stop | leave | dialDone | link => exact fun c _ => allows_all c

/-! ### What writes keep -/

/-- The sids handed out are the numbers between the counter before and behind. -/
theorem Write.sids_eq (hw : Write S h sids h') : h.sidCounter ≤ h'.sidCounter ∧
    sids = List.range' (h.sidCounter + 1) (h'.sidCounter - h.sidCounter) := by
  cases hw with
  | other objs subs counter =>
      rw [counter, Nat.sub_self]
      exact ⟨Nat.le_refl _, rfl⟩
  | change | limit | receive | release =>
      refine ⟨Nat.le_refl _, ?_⟩
      show [] = List.range' _ (h.sidCounter - h.sidCounter)
      rw [Nat.sub_self]
      rfl
  | add | resub =>
      refine ⟨Nat.le_succ _, ?_⟩
      show [_] = List.range' _ (h.sidCounter + 1 - h.sidCounter)
      rw [Nat.add_sub_cancel_left]
      rfl

theorem Writes.sids_eq (hw : Writes S h sids h') : h.sidCounter ≤ h'.sidCounter ∧
    sids = List.range' (h.sidCounter + 1) (h'.sidCounter - h.sidCounter) := by
  induction hw with
  | refl h =>
      rw [Nat.sub_self]
      exact ⟨Nat.le_refl _, rfl⟩
  | head write _ ih =>
      rename_i h h' h'' sids sids' _
      obtain ⟨hle, hsids⟩ := write.sids_eq
      obtain ⟨hle', hsids'⟩ := ih
      refine ⟨Nat.le_trans hle hle', ?_⟩
      have hlength : h''.sidCounter - h.sidCounter =
          (h'.sidCounter - h.sidCounter) + (h''.sidCounter - h'.sidCounter) := by omega
      have hstart : h'.sidCounter + 1 = h.sidCounter + 1 + 1 * (h'.sidCounter - h.sidCounter) := by
        omega
      rw [hsids, hsids', hlength, hstart, List.range'_append]

/-- The sids that are handed out are above the counter before, and not above the one behind. -/
theorem Writes.mem_sids (hw : Writes S h sids h') {sid : Nat} :
    sid ∈ sids ↔ h.sidCounter < sid ∧ sid ≤ h'.sidCounter := by
  obtain ⟨hle, hsids⟩ := hw.sids_eq
  rw [hsids, List.mem_range'_1]
  omega

/-- **One write** keeps the table in order. -/
theorem Write.keyed (hw : Write S h sids h') (hk : h.Keyed) : h'.Keyed := by
  cases hw with
  | other objs subs counter =>
      constructor
      · rw [subs, objs]
        exact hk.mem
      · rw [subs]
        exact hk.nodup
      · rw [subs, counter]
        exact hk.le
  | change found kind sid received max => exact hk.setObj found sid
  | limit within found kind sid received max => exact hk.setObj found sid
  | receive within found => exact hk.setObj found rfl
  | release within found kind sid received => exact (hk.setObj found sid).delete _
  | add sid received max =>
      refine hk.insert ?_ List.getElem?_concat_length sid ?_ rfl rfl
      · intro sid' hmem
        obtain ⟨x, hx, -⟩ := hk.mem sid' _ hmem
        exact absurd (List.getElem?_eq_some_iff.1 hx).1 (Nat.lt_irrefl _)
      · intro i x _ hx
        exact (List.getElem?_append_left (List.getElem?_eq_some_iff.1 hx).1).trans hx
  | resub within found kind sid received max =>
      rename_i o s s'
      refine (hk.delete s.sid).insert (hk.not_mem_delete found) ?_ sid ?_ rfl rfl
      · exact setObj_self found
      · intro i x hi hx
        exact (setObj_ne hi).trans hx

theorem Writes.keyed (hw : Writes S h sids h') (hk : h.Keyed) : h'.Keyed := by
  induction hw with
  | refl => exact hk
  | head write _ ih => exact ih (write.keyed hk)

end ProtocolHandler

end NatsClient.Connection
