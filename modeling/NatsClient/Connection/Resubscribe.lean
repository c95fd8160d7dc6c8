import NatsClient.Connection.AutoUnsubscribe
import NatsClient.Connection.Requests

/-!
# Moving a subscription with a limit

Model of `_resub` (`nats.ts`): it gives the subscription a limit, which counts from what it
received, and lets the protocol handler move it to another subject. The handler unsubscribes it
first, which takes away the limit that was just given (`resub_free`).

So `_resub` does what it is asked exactly where no limit is given (`allows_resub_iff`): then no
limit applies any more, whatever the subscription had before.
-/

set_option autoImplicit false

namespace NatsClient.Connection

open NatsClient.Foundation NatsClient.Iterator NatsClient.Reconnect

variable {μ E : Type}

namespace SubscriptionImpl

/-- The limit that `_resub` gives. -/
def resubLimit (s : SubscriptionImpl μ E) (max : Option Nat) : Option Nat :=
  match limitOf max with
  | some max => some (max + s.received)
  | none => max

end SubscriptionImpl

namespace NatsConnectionImpl

/-- Object `o` gets the limit, and the handler moves it. -/
def moved (o : Nat) (subject : String) (max : Option Nat) (c : NatsConnectionImpl μ E) :
    NatsConnectionImpl μ E :=
  match c.conn.handler.objs[o]? with
  | none => c
  | some s =>
      { c with
        conn := { c.conn with
          handler := (c.conn.handler.setObj o { s with max := s.resubLimit max }).resub o subject }
        reqs_lt := c.reqs_lt }

/-- `_resub(s, subject, max)` of object `o`. -/
def _resub (o : Nat) (subject : String) (max : Option Nat) : Requesting μ E Unit := do
  _check subject true false
  modify (moved o subject max)

end NatsConnectionImpl

/-- A call that does not name object `o`. -/
def Call.Spares (o : Nat) : Call → Prop
  | .unsubscribe i _ | .drain i | .resub i _ => i ≠ o
  | .subscribe _ | .publish _ _ | .flush | .reconnect | .close => True

namespace ProtocolHandler

/-- An event that neither ends a drain of object `o` nor brings calls that name it. -/
def Event.Spares (o : Nat) : Event μ E → Prop
  | .drained i _ => i ≠ o
  | e => ∀ c ∈ e.calls, c.Spares o

/-- In every run that spares the subscription: with a limit, no more messages are dispatched to it
than that, and it is out of the table when so many were; without one, it stays in the table. -/
def Allows (h : ProtocolHandler μ E) (o : Nat) (max : Option Nat) : Prop :=
  ∀ es h', run step h es = some h' → (∀ e ∈ es, e.Spares o) →
    match max with
    | some m => (outputs step dispatched h es).count o ≤ m ∧
        ((outputs step dispatched h es).count o = m → ∀ sid, (sid, o) ∉ h'.subs)
    | none => ∃ s, h'.objs[o]? = some s ∧ h'.get s.sid = some o

variable {h h' : ProtocolHandler μ E} {s s' : SubscriptionImpl μ E} {o sid : Nat} {sids : List Nat}

/-! ## A subscription without a limit -/

/-- Object `o` is in the table under `sid`, and has no limit. -/
structure Free (h : ProtocolHandler μ E) (o sid : Nat) : Prop where
  mem : (sid, o) ∈ h.subs
  obj : ∃ s, h.objs[o]? = some s ∧ s.sid = sid ∧ s.max = none

/-- Everything but a write of object `o` itself. -/
def Scope.sparing (o : Nat) : Scope := ⟨fun _ => True, (· ≠ o), True⟩

theorem Free.setObj {i : Nat} {x x' : SubscriptionImpl μ E} (hf : h.Free o sid)
    (hx : h.objs[i]? = some x) (hsame : i = o → x'.sid = x.sid ∧ x'.max = x.max) :
    (h.setObj i x').Free o sid where
  mem := hf.mem
  obj := by
    obtain ⟨s, hs, hsid, hmax⟩ := hf.obj
    cases Nat.decEq o i with
    | isTrue hi =>
        subst hi
        rw [hs, Option.some.injEq] at hx
        obtain ⟨hsid', hmax'⟩ := hsame rfl
        exact ⟨x', setObj_self hs, by rw [hsid', ← hx, hsid], by rw [hmax', ← hx, hmax]⟩
    | isFalse hi => exact ⟨s, (setObj_ne hi).trans hs, hsid, hmax⟩

/-- The entry of another object is that of another sid. -/
theorem Free.mem_delete {i : Nat} {x : SubscriptionImpl μ E} (hn : h.Numbered) (hf : h.Free o sid)
    (hx : h.objs[i]? = some x) (hi : i ≠ o) : (sid, o) ∈ delete h.subs x.sid := by
  obtain ⟨s, hs, hsid, -⟩ := hf.obj
  refine ProtocolHandler.mem_delete.2 ⟨hf.mem, fun heq => hi ?_⟩
  exact hn.eq_of_sid hx hs (hsid.trans heq).symm

/-- **One write** of another object. -/
theorem Write.free (hw : Write (Scope.sparing o) h sids h') (hn : h.Numbered) (hf : h.Free o sid) :
    h'.Free o sid := by
  cases hw with
  | other objs subs counter => exact ⟨subs ▸ hf.mem, objs ▸ hf.obj⟩
  | change found kind hsid received max => exact hf.setObj found fun _ => ⟨hsid, max⟩
  | limit within found kind hsid received max => exact hf.setObj found fun hi => absurd hi within
  | receive within found => exact hf.setObj found fun _ => ⟨rfl, rfl⟩
  | release within found kind hsid received =>
      exact ⟨hf.mem_delete hn found within, (hf.setObj found fun hi => absurd hi within).obj⟩
  | add hsid received max =>
      obtain ⟨s, hs, hs'⟩ := hf.obj
      refine ⟨List.mem_append_left _ hf.mem, s, ?_, hs'⟩
      exact (List.getElem?_append_left (List.getElem?_eq_some_iff.1 hs).1).trans hs
  | resub within found kind hsid received max =>
      exact ⟨List.mem_append_left _ (hf.mem_delete hn found within),
        (hf.setObj found fun hi => absurd hi within).obj⟩

theorem Writes.free (hw : Writes (Scope.sparing o) h sids h') (hn : h.Numbered)
    (hf : h.Free o sid) : h'.Free o sid := by
  induction hw with
  | refl => exact hf
  | head write _ ih => exact ih (write.numbered hn) (write.free hn hf)

theorem allows_sparing {c : Call} (hc : c.Spares o) : (Scope.sparing o).Allows c := by
  cases c with
  | unsubscribe | drain | resub => exact hc
  | subscribe | publish | flush | reconnect | close => exact trivial

/-- A message for the subscription itself: it has no limit to reach. -/
theorem Free.processMsg (hk : h.Keyed) (hn : h.Numbered) (hf : h.Free o sid) (v : μ)
    {cs : List Call} (hcs : ∀ c ∈ cs, c.Spares o) : (h.processMsg sid v cs).Free o sid := by
  obtain ⟨s, hs, -, -⟩ := hf.obj
  have hget : h.get sid = some o := get_of_mem hk.nodup hf.mem
  have hreceive : Write (Scope.sparing o) h [] (h.setObj o s.receive) := .receive trivial hs
  obtain ⟨sids, hdispatch⟩ := writes_dispatch (setObj_self hs) v fun c hc =>
    allows_sparing (hcs c hc)
  have hf' := hdispatch.free (hreceive.numbered hn) (hreceive.free hn hf)
  obtain ⟨x, hx, -, hmax⟩ := hf'.obj
  simp only [ProtocolHandler.processMsg, hget, hs, checkMax, hx, SubscriptionImpl.reachedMax, hmax,
    Bool.false_eq_true, if_false]
  exact hf'

/-- **One event** that spares the subscription. -/
theorem free_step {e : Event μ E} (hk : h.Keyed) (hn : h.Numbered) (hf : h.Free o sid)
    (he : e.Spares o) (hstep : h.step e = some h') : h'.Free o sid := by
  by_cases hown : ∃ v cs, e = .message sid v cs
  · obtain ⟨v, cs, rfl⟩ := hown
    cases hstep
    exact hf.processMsg hk hn v he
  · have hcovers : (Scope.sparing o).Covers h e := by
      cases e with
      | drained i d => exact he
      | message i v cs =>
          refine ⟨trivial, fun j hget hj => hown ⟨v, cs, ?_⟩, fun c hc => allows_sparing (he c hc)⟩
          -- the table has the subscription under its sid only
          obtain ⟨x, hx, hxsid⟩ := hk.mem i j (mem_of_get hget)
          obtain ⟨s, hs, hsid, -⟩ := hf.obj
          rw [hj, hs, Option.some.injEq] at hx
          rw [← hxsid, ← hx, hsid]
      | call | timeout | next | stop | leave | dialDone | link =>
          exact fun c hc => allows_sparing (he c hc)
    obtain ⟨sids, hw⟩ := writes_step hcovers hstep
    exact hw.free hn hf

/-- **A run** that spares the subscription. -/
theorem free_run {es : List (Event μ E)} (hk : h.Keyed) (hn : h.Numbered) (hf : h.Free o sid)
    (hes : ∀ e ∈ es, e.Spares o) (hrun : run step h es = some h') : h'.Keyed ∧ h'.Free o sid := by
  have hall : h'.Keyed ∧ h'.Numbered ∧ h'.Free o sid := by
    refine invariant_run_of_forall (I := fun h => h.Keyed ∧ h.Numbered ∧ h.Free o sid) ?_ hrun hes
      ⟨hk, hn, hf⟩
    rintro h e h' ⟨hk, hn, hf⟩ he hstep
    obtain ⟨sids, hw⟩ := writes_step (covers_all h e) hstep
    exact ⟨hw.keyed hk, hw.numbered hn, free_step hk hn hf he hstep⟩
  exact ⟨hall.1, hall.2.2⟩

/-- It gets as many messages as arrive for it. -/
theorem free_messages (hk : h.Keyed) (hn : h.Numbered) (hf : h.Free o sid) (v : μ) (n : Nat) :
    ∃ h', run step h (List.replicate n (.message sid v [])) = some h' ∧
      (outputs step dispatched h (List.replicate n (.message sid v []))).count o = n := by
  induction n generalizing h with
  | zero => exact ⟨h, rfl, rfl⟩
  | succ n ih =>
      have hstep : h.step (.message sid v []) = some (h.processMsg sid v []) := rfl
      obtain ⟨sids, hw⟩ := writes_step (covers_all h _) hstep
      have hf' : (h.processMsg sid v []).Free o sid := hf.processMsg hk hn v fun c hc => by cases hc
      obtain ⟨h', hrun, hcount⟩ := ih (hw.keyed hk) (hw.numbered hn) hf'
      refine ⟨h', run_cons hstep hrun, ?_⟩
      have hget : h.get sid = some o := get_of_mem hk.nodup hf.mem
      rw [List.replicate_succ, outputs_cons hstep, List.count_append, hcount, dispatched, hget,
        Option.toList_some, List.count_singleton_self, Nat.add_comm]

/-- **A subscription without a limit** allows any number of messages, so it does what it is asked
where no limit was. -/
theorem Free.allows_iff [Inhabited μ] (hk : h.Keyed) (hn : h.Numbered) (hf : h.Free o sid)
    (max : Option Nat) : h.Allows o max ↔ max = none := by
  constructor
  · intro hallows
    cases max with
    | none => rfl
    | some m =>
        -- one message more than the limit
        obtain ⟨h', hrun, hcount⟩ := free_messages hk hn hf default (m + 1)
        have hspares : ∀ e ∈ List.replicate (m + 1) (.message sid default [] : Event μ E),
            e.Spares o := by
          intro e hmem
          rw [List.eq_of_mem_replicate hmem]
          intro c hc
          cases hc
        have hle := (hallows _ h' hrun hspares).1
        rw [hcount] at hle
        exact absurd hle (Nat.not_succ_le_self m)
  · rintro rfl es h' hrun hes
    obtain ⟨hk', hf'⟩ := free_run hk hn hf hes hrun
    obtain ⟨s, hs, hsid, -⟩ := hf'.obj
    exact ⟨s, hs, hsid ▸ get_of_mem hk'.nodup hf'.mem⟩

/-- The handler moves a subscription and takes its limit away. -/
theorem free_resub (hs : h.objs[o]? = some s) (hopen : h.link.closed = false) (subject : String) :
    (h.resub o subject).Free o (h.sidCounter + 1) := by
  have hunsub : (h.unsub o s none).objs[o]? = some (s.unsub none false) := by
    rw [← hopen]
    exact unsub_getElem? hs none
  simp only [resub, hs, hopen, if_neg Bool.false_ne_true]
  refine ⟨List.mem_append_right _ (List.mem_singleton.2 rfl), _, setObj_self hunsub, rfl, rfl⟩

end ProtocolHandler

namespace NatsConnectionImpl

open ProtocolHandler

theorem run_resub {c : NatsConnectionImpl μ E} {subject : String}
    (hcheck : c.check subject true false = none) (o : Nat) (max : Option Nat) :
    (_resub o subject max).run c = .ok () (c.moved o subject max) := by
  rw [_resub, EStateM.run_bind, run_check hcheck]
  rfl

/-- What `_resub` leaves behind: the limit it gave is gone. -/
theorem free_moved {c : NatsConnectionImpl μ E} {o : Nat} {s : SubscriptionImpl μ E}
    (hk : c.conn.handler.Keyed) (hn : c.conn.handler.Numbered)
    (hs : c.conn.handler.objs[o]? = some s) (hopen : c.isClosed = false) (subject : String)
    (max : Option Nat) :
    (c.moved o subject max).conn.handler.Keyed ∧ (c.moved o subject max).conn.handler.Numbered ∧
      (c.moved o subject max).conn.handler.Free o (c.conn.handler.sidCounter + 1) := by
  have hset : (c.conn.handler.setObj o { s with max := s.resubLimit max }).objs[o]? =
      some { s with max := s.resubLimit max } := setObj_self hs
  obtain ⟨sids, hw⟩ := writes_call (S := Scope.all)
    (c.conn.handler.setObj o { s with max := s.resubLimit max }) (allows_all (.resub o subject))
  simp only [moved, hs]
  exact ⟨hw.keyed (hk.setObj hs rfl), hw.numbered (hn.setObj hs rfl), free_resub hset hopen subject⟩

/-- **`_resub` with a limit**: for every subscription of a connection at work, it does what it is
asked exactly where no limit is given. -/
theorem allows_resub_iff [Inhabited μ] {raise : NatsError → Option PermissionContext → E}
    {pendingLimit maxOut : Nat} {es : List (ConnectedEvent μ E)} {c : NatsConnectionImpl μ E}
    (hrun : run (Connected.step raise) (Connected.new pendingLimit maxOut) es = some c.conn)
    {o : Nat} {s : SubscriptionImpl μ E} (hs : c.conn.handler.objs[o]? = some s) {subject : String}
    (hcheck : c.check subject true false = none) (max : Option Nat) :
    ∃ c', (_resub o subject max).run c = .ok () c' ∧
      (c'.conn.handler.Allows o max ↔ max = none) := by
  obtain ⟨sids, hw⟩ := Connected.reaches_run hrun
  have hk := hw.keyed (once_new pendingLimit maxOut).keyed
  have hn := hw.numbered (numbered_new pendingLimit maxOut)
  obtain ⟨hk', hn', hf⟩ := free_moved hk hn hs (check_eq_none_iff.1 hcheck).1 subject max
  exact ⟨_, run_resub hcheck o max, hf.allows_iff hk' hn' max⟩

/-- A subscription with the limit `3` that is moved without one. -/
theorem allows_resub_iff_none :
    ∃ c', (_resub 0 "b" none).run
        ((fresh none 0 2 : NatsConnectionImpl Nat Unit).withSub ⟨"a", none, some 3, true,
          false⟩ "") =
          .ok () c' ∧ (c'.conn.handler.Allows 0 none ↔ (none : Option Nat) = none) := by
  have hrun : run (Connected.step fun _ _ => ()) (Connected.new 0 2 : Connected Nat Unit)
      [.requestNoMux ⟨"a", none, some 3, true, false⟩ ""] =
      some ((fresh none 0 2 : NatsConnectionImpl Nat Unit).withSub
        ⟨"a", none, some 3, true, false⟩ "").conn := rfl
  exact allows_resub_iff hrun rfl (by decide) none

/-- A subscription that is moved with the limit `1` gets a second message. -/
theorem not_allows_resub :
    ¬ ∀ c', (_resub 0 "b" (some 1)).run ((fresh none 0 2 : NatsConnectionImpl Nat Unit).withSub
        ⟨"a", none, none, true, false⟩ "") = .ok () c' → c'.conn.handler.Allows 0 (some 1) := by
  intro hall
  have hallows := hall _ (run_resub (by decide) 0 (some 1))
  have hspares : ∀ e ∈ [.message 2 7 [], .message 2 7 []], Event.Spares 0 (e : Event Nat Unit) := by
    intro e hmem
    rcases List.mem_cons.1 hmem with rfl | hmem
    · intro c hc
      cases hc
    · cases List.mem_singleton.1 hmem
      intro c hc
      cases hc
  exact absurd (hallows _ _ rfl hspares).1 (by decide)

end NatsConnectionImpl

end NatsClient.Connection
