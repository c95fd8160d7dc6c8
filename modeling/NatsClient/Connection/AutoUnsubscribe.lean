import NatsClient.Connection.TableIntegrity

/-!
# The limit of a subscription

Over all runs of a connection: a subscription with a limit gets no more messages than that, and
leaves the table with the message that reaches it (`Bounds`). Limits are set, raised and lowered by
`unsubscribe`, also from inside a callback, and nothing in the handler goes by what the server makes
of them, so disconnects do not matter.

`subscribe` takes a limit of `0` for none, and `processMsg` does not: a subscription that is made
with it stays in the table for one message (`not_bounds`). In all runs without such a subscription
the limits are kept (`bounds_run`).
-/

set_option autoImplicit false

namespace NatsClient.Connection

open NatsClient.Foundation NatsClient.Iterator NatsClient.Reconnect NatsClient.Wire

variable {μ E : Type}

namespace ConnectedEvent

/-- No subscription that the event makes, those of its callback included, is made with the limit
`0`. -/
def Limited : ConnectedEvent μ E → Prop
  | .handler e => ∀ opts, .subscribe opts ∈ e.calls → opts.max ≠ some 0
  | .request _ _ _ => True
  | .requestNoMux opts _ => opts.max ≠ some 0
  | .error _ cs => ∀ opts, .subscribe opts ∈ cs → opts.max ≠ some 0

end ConnectedEvent

namespace ProtocolHandler

/-- The subscription that the message of an event is dispatched to. -/
def dispatched (h : ProtocolHandler μ E) : Event μ E → List Nat
  | .message sid _ _ => (h.get sid).toList
  | .call _ | .drained _ _ | .timeout _ _ _ | .next _ | .stop _ _ | .leave _ | .dialDone
  | .link _ => []

end ProtocolHandler

namespace Connected

/-- The subscription that the message of an event is dispatched to. -/
def dispatched (c : Connected μ E) : ConnectedEvent μ E → List Nat
  | .handler e => c.handler.dispatched e
  | .request _ _ _ | .requestNoMux _ _ | .error _ _ => []

/-- The subscriptions that the messages of a run are dispatched to. -/
def dispatches (raise : NatsError → Option PermissionContext → E) (c : Connected μ E)
    (es : List (ConnectedEvent μ E)) : List Nat := outputs (step raise) dispatched c es

/-- The limits are kept, `log` having the subscriptions that messages were dispatched to. A
subscription counts what it gets; one whose message would be dispatched now got less than its limit,
and one that got as much is not in the table, so that its messages are dropped. -/
structure Bounds (c : Connected μ E) (log : List Nat) : Prop where
  received : ∀ (o : Nat) s, c.handler.objs[o]? = some s → s.received = log.count o
  dispatch : ∀ sid o s m, c.handler.get sid = some o → c.handler.objs[o]? = some s →
    s.max = some m → log.count o < m
  leaves : ∀ (o : Nat) s m, c.handler.objs[o]? = some s → s.max = some m → m ≤ log.count o →
    (∀ sid, (sid, o) ∉ c.handler.subs) ∧ ∀ v cs, c.handler.processMsg s.sid v cs = c.handler

end Connected

namespace ProtocolHandler

variable {S : Scope} {h h' : ProtocolHandler μ E}
  {s s' : SubscriptionImpl μ E} {o sid : Nat} {sids log : List Nat} {except : Option Nat}

/-! ## The count -/

/-- The objects count the messages of the log. -/
structure Counts (h : ProtocolHandler μ E) (log : List Nat) : Prop where
  received : ∀ (o : Nat) s, h.objs[o]? = some s → s.received = log.count o
  lt : ∀ o ∈ log, o < h.objs.length

theorem Counts.setObj (hc : h.Counts log) (hs : h.objs[o]? = some s)
    (hreceived : s'.received = s.received) : (h.setObj o s').Counts log where
  received i x hx := by
    rcases setObj_cases hs hx with ⟨rfl, rfl⟩ | ⟨-, hx⟩
    · rw [hreceived]
      exact hc.received i s hs
    · exact hc.received i x hx
  lt i hmem := by
    rw [show (h.setObj o s').objs = h.objs.set o s' from rfl, List.length_set]
    exact hc.lt i hmem

/-- Without a message, writes do not count. -/
theorem Write.counted (hS : ¬ S.message) (hw : Write S h sids h') (hc : h.Counts log) :
    h'.Counts log := by
  cases hw with
  | other objs subs counter =>
      constructor
      · rw [objs]
        exact hc.received
      · rw [objs]
        exact hc.lt
  | change found kind sid received max => exact hc.setObj found received
  | limit within found kind sid received max => exact hc.setObj found received
  | receive within found => exact absurd within hS
  | release within found kind sid received =>
      have hset := hc.setObj found received
      exact ⟨hset.received, hset.lt⟩
  | add sid received max =>
      rename_i s
      constructor
      · intro i x hx
        by_cases hlt : i < h.objs.length
        · exact hc.received i x ((List.getElem?_append_left hlt).symm.trans hx)
        · -- a new object is not in the log
          have hx' := (List.getElem?_append_right (Nat.le_of_not_lt hlt)).symm.trans hx
          rw [List.mem_singleton.1 (List.mem_of_getElem? hx'), received]
          exact (List.count_eq_zero.2 fun hmem => hlt (hc.lt i hmem)).symm
      · intro i hmem
        show i < (h.objs ++ [s]).length
        rw [List.length_append]
        exact Nat.lt_add_right _ (hc.lt i hmem)
  | resub within found kind sid received max =>
      have hset := hc.setObj found received
      exact ⟨hset.received, hset.lt⟩

theorem Writes.counted (hS : ¬ S.message) (hw : Writes S h sids h') (hc : h.Counts log) :
    h'.Counts log := by
  induction hw with
  | refl => exact hc
  | head write _ ih => exact ih (write.counted hS hc)

/-- A message counts. -/
theorem Counts.receive (hc : h.Counts log) (hs : h.objs[o]? = some s) :
    (h.setObj o s.receive).Counts (log ++ [o]) where
  received i x hx := by
    rw [List.count_append, List.count_singleton]
    rcases setObj_cases hs hx with ⟨rfl, rfl⟩ | ⟨hne, hx⟩
    · rw [beq_self_eq_true, if_pos rfl, ← hc.received i s hs]
      rfl
    · rw [beq_eq_false_iff_ne.2 hne.symm, if_neg Bool.false_ne_true, ← hc.received i x hx,
        Nat.add_zero]
  lt i hmem := by
    rw [show (h.setObj o s.receive).objs = h.objs.set o s.receive from rfl, List.length_set]
    rcases List.mem_append.1 hmem with hold | hnew
    · exact hc.lt i hold
    · rw [List.mem_singleton.1 hnew]
      exact (List.getElem?_eq_some_iff.1 hs).1

/-! ## The limits -/

/-- The subscriptions of the table, but for `except`, have not reached their limits. -/
def Limited (h : ProtocolHandler μ E) (except : Option Nat) : Prop :=
  ∀ sid o s m, (sid, o) ∈ h.subs → except ≠ some o → h.objs[o]? = some s → s.max = some m →
    s.received < m

/-- No message arrives, and no subscription is made with the limit `0`. -/
def Scope.quiet : Scope := ⟨(· ≠ some 0), fun _ => True, False⟩

/-- **One write** keeps the limits. -/
theorem Write.limited (hw : Write Scope.quiet h sids h') (hk : h.Keyed)
    (hl : h.Limited except) : h'.Limited except := by
  intro sid i x m hmem hne hx hm
  cases hw with
  | other objs subs counter =>
      rw [subs] at hmem
      rw [objs] at hx
      exact hl sid i x m hmem hne hx hm
  | change found kind hsid received max =>
      rcases setObj_cases found hx with ⟨rfl, rfl⟩ | ⟨-, hx⟩
      · rw [received]
        exact hl sid i _ m hmem hne found (max.symm.trans hm)
      · exact hl sid i x m hmem hne hx hm
  | limit within found kind hsid received max =>
      rcases setObj_cases found hx with ⟨rfl, rfl⟩ | ⟨-, hx⟩
      · exact max m hm
      · exact hl sid i x m hmem hne hx hm
  | receive within found => exact within.elim
  | release within found kind hsid received =>
      -- the object is not in the table any more
      have hold := (mem_delete.1 hmem).1
      rcases setObj_cases found hx with ⟨rfl, -⟩ | ⟨-, hx⟩
      · exact absurd hmem (hk.not_mem_delete found sid)
      · exact hl sid i x m hold hne hx hm
  | add hsid received max =>
      rename_i s
      by_cases hlt : i < h.objs.length
      · -- an object that was there before
        have hold : (sid, i) ∈ h.subs := by
          rcases List.mem_append.1 hmem with hold | hnew
          · exact hold
          · exact absurd (Prod.mk.inj (List.mem_singleton.1 hnew)).2 (Nat.ne_of_lt hlt)
        exact hl sid i x m hold hne ((List.getElem?_append_left hlt).symm.trans hx) hm
      · -- the new object has received nothing, and its limit is not `0`
        have hx' := (List.getElem?_append_right (Nat.le_of_not_lt hlt)).symm.trans hx
        rw [List.mem_singleton.1 (List.mem_of_getElem? hx')] at hm ⊢
        rw [received]
        exact Nat.pos_of_ne_zero fun hzero => max (hm.trans (congrArg some hzero))
  | resub within found kind hsid received max =>
      rcases setObj_cases found hx with ⟨rfl, rfl⟩ | ⟨hi, hx⟩
      · -- the one that subscribes again has no limit any more
        rw [max] at hm
        cases hm
      · rcases List.mem_append.1 hmem with hold | hnew
        · exact hl sid i x m (mem_delete.1 hold).1 hne hx hm
        · exact absurd (Prod.mk.inj (List.mem_singleton.1 hnew)).2 hi

theorem Writes.limited (hw : Writes Scope.quiet h sids h') (hk : h.Keyed)
    (hl : h.Limited except) : h'.Limited except := by
  induction hw with
  | refl => exact hl
  | head write _ ih => exact ih (write.keyed hk) (write.limited hk hl)

theorem allows_quiet {c : Call} (hc : ∀ opts, c = .subscribe opts → opts.max ≠ some 0) :
    Scope.quiet.Allows c := by
  cases c with
  | subscribe opts => exact hc opts rfl
  | unsubscribe | drain | resub | publish | flush | reconnect | close => exact trivial

/-- The end of `processMsg`: the subscription that got the message has room for more, or it leaves
the table. -/
theorem Limited.checkMax (hk : h.Keyed) (hl : h.Limited (some o)) :
    (h.checkMax o).Limited none := by
  have hothers : (h.checkMax o).Limited (some o) :=
    (writes_checkMax trivial h).limited hk hl
  intro sid i x m hmem _ hx hm
  by_cases hi : i = o
  · subst hi
    cases hs : h.objs[i]? with
    | none =>
        rw [ProtocolHandler.checkMax, hs] at hx
        simp only [hs, reduceCtorEq] at hx
    | some s =>
        by_cases hmax : s.reachedMax = true
        · have hleft : (h.checkMax i).subs = delete h.subs s.sid := by
            simp only [ProtocolHandler.checkMax, hs, if_pos hmax]
            exact subs_unsubscribe_of_reachedMax hs hmax
          rw [hleft] at hmem
          exact absurd hmem (hk.not_mem_delete hs sid)
        · have hsame : h.checkMax i = h := by
            simp only [ProtocolHandler.checkMax, hs, if_neg hmax]
          rw [hsame, hs, Option.some.injEq] at hx
          rw [← hx] at hm ⊢
          rw [SubscriptionImpl.reachedMax, hm] at hmax
          exact Nat.lt_of_not_le fun hle => hmax (decide_eq_true hle)
  · exact hothers sid i x m hmem (fun heq => hi (Option.some.inj heq).symm) hx hm

/-- **A message** counts, whatever its callback writes, and the limits are kept. -/
theorem Limited.delivered (hk : h.Keyed) (hl : h.Limited none) (hc : h.Counts log)
    (hs : h.objs[o]? = some s) {sids : List Nat} {h' : ProtocolHandler μ E}
    (hw : Writes Scope.quiet (h.setObj o s.receive) sids h') :
    (h'.checkMax o).Limited none ∧ (h'.checkMax o).Counts (log ++ [o]) := by
  have hkeyed : (h.setObj o s.receive).Keyed := hk.setObj hs rfl
  have hlimited : (h.setObj o s.receive).Limited (some o) := by
    intro i j x m hmem hne hx hm
    refine hl i j x m hmem (by simp) ?_ hm
    exact (setObj_ne fun hj => hne (congrArg some hj.symm)).symm.trans hx
  refine ⟨(hw.limited hkeyed hlimited).checkMax (hw.keyed hkeyed), ?_⟩
  exact (writes_checkMax (S := Scope.quiet) trivial _).counted not_false
    (hw.counted not_false (hc.receive hs))

theorem Limited.processMsg (hk : h.Keyed) (hl : h.Limited none) (hc : h.Counts log)
    (sid : Nat) (v : μ) {cs : List Call} (hcs : ∀ opts, .subscribe opts ∈ cs → opts.max ≠ some 0) :
    (h.processMsg sid v cs).Limited none ∧
      (h.processMsg sid v cs).Counts (log ++ (h.get sid).toList) := by
  rw [ProtocolHandler.processMsg]
  cases hget : h.get sid with
  | none =>
      rw [Option.toList_none, List.append_nil]
      exact ⟨hl, hc⟩
  | some o =>
      obtain ⟨s, hs, -⟩ := hk.mem sid o (mem_of_get hget)
      simp only [hs, Option.toList_some]
      obtain ⟨sids, hw⟩ := writes_dispatch (setObj_self hs) v fun c hc =>
        allows_quiet fun opts heq => hcs opts (heq ▸ hc)
      exact hl.delivered hk hc hs hw

/-- One whose callback was replaced counts too. -/
theorem Limited.receive (hk : h.Keyed) (hl : h.Limited none) (hc : h.Counts log)
    (hs : h.objs[o]? = some s) :
    (h.receive o).Limited none ∧ (h.receive o).Counts (log ++ [o]) := by
  simp only [ProtocolHandler.receive, hs]
  exact hl.delivered hk hc hs (.refl _)

end ProtocolHandler

/-! ## Runs -/

namespace Connected

open ProtocolHandler

variable {raise : NatsError → Option PermissionContext → E} {c c' : Connected μ E} {log : List Nat}

/-- An event that is not a message. -/
theorem covers_quiet {e : ConnectedEvent μ E} (he : e.Limited)
    (hmessage : ∀ sid v cs, e ≠ .handler (.message sid v cs)) : c.Covers Scope.quiet e := by
  cases e with
  | handler e =>
      have hcalls : ∀ c ∈ e.calls, Scope.quiet.Allows c := fun c hc =>
        allows_quiet fun opts heq => he opts (heq ▸ hc)
      cases e with
      | message sid v cs => exact absurd rfl (hmessage sid v cs)
      | drained o d => exact trivial
      | call | timeout | next | stop | leave | dialDone | link => exact hcalls
  | request token subject inbox => exact nofun
  | requestNoMux opts subject => exact he
  | error m cs =>
      exact ⟨fun _ => trivial, fun c hc => allows_quiet fun opts heq => he opts (heq ▸ hc)⟩

/-- **One event.** -/
theorem limited_step {e : ConnectedEvent μ E} (hk : c.handler.Keyed) (hl : c.handler.Limited none)
    (hc : c.handler.Counts log) (he : e.Limited) (hstep : c.step raise e = some c') :
    c'.handler.Limited none ∧ c'.handler.Counts (log ++ c.dispatched e) := by
  by_cases hmessage : ∃ sid v cs, e = .handler (.message sid v cs)
  · obtain ⟨sid, v, cs, rfl⟩ := hmessage
    obtain ⟨h', hhandle, rfl⟩ := Option.map_eq_some_iff.1 hstep
    show h'.Limited none ∧ h'.Counts (log ++ (c.handler.get sid).toList)
    rw [handle] at hhandle
    have hplain := Limited.processMsg hk hl hc sid v he
    cases hget : c.handler.get sid with
    | none =>
        simp only [hget, Option.some.injEq] at hhandle
        rw [← hhandle, Option.toList_none, List.append_nil]
        exact ⟨hl, hc⟩
    | some o =>
        simp only [hget, Option.some.injEq] at hhandle
        obtain ⟨s, hs, -⟩ := hk.mem sid o (mem_of_get hget)
        rw [hget] at hplain
        rw [← hhandle]
        split
        · exact hl.receive hk hc hs
        · exact hplain
  · obtain ⟨sids, hw⟩ := writes_step
      (covers_quiet he fun sid v cs heq => hmessage ⟨sid, v, cs, heq⟩) hstep
    have hnone : c.dispatched e = [] := by
      cases e with
      | handler e =>
          cases e with
          | message sid v cs => exact absurd ⟨sid, v, cs, rfl⟩ hmessage
          | _ => rfl
      | _ => rfl
    rw [hnone, List.append_nil]
    exact ⟨hw.limited hk hl, hw.counted not_false hc⟩

/-- **A run.** -/
theorem limited_run {es : List (ConnectedEvent μ E)} (hk : c.handler.Keyed)
    (hl : c.handler.Limited none) (hc : c.handler.Counts log) (hes : ∀ e ∈ es, e.Limited)
    (hrun : run (step raise) c es = some c') :
    c'.handler.Keyed ∧ c'.handler.Limited none ∧
      c'.handler.Counts (log ++ dispatches raise c es) := by
  induction es generalizing c log with
  | nil =>
      cases hrun
      rw [dispatches, outputs, List.append_nil]
      exact ⟨hk, hl, hc⟩
  | cons e es ih =>
      obtain ⟨c₁, hstep, hrest⟩ := run_cons_inv hrun
      obtain ⟨hl₁, hc₁⟩ := limited_step hk hl hc (hes e List.mem_cons_self) hstep
      have hlater :=
        ih (keyed_step hk hstep) hl₁ hc₁ (fun e' hmem => hes e' (List.mem_cons_of_mem e hmem)) hrest
      rw [dispatches, outputs_cons hstep, ← List.append_assoc]
      exact hlater

/-- What the limits say of the messages to come. -/
theorem bounds_of_limited (hk : c.handler.Keyed) (hn : c.handler.Numbered)
    (hl : c.handler.Limited none) (hc : c.handler.Counts log) : c.Bounds log where
  received := hc.received
  dispatch := by
    intro sid o s m hget hs hm
    rw [← hc.received o s hs]
    exact hl sid o s m (mem_of_get hget) nofun hs hm
  leaves := by
    intro o s m hs hm hle
    have hout : ∀ sid, (sid, o) ∉ c.handler.subs := by
      intro sid hmem
      have hlt := hl sid o s m hmem nofun hs hm
      rw [hc.received o s hs] at hlt
      exact Nat.not_lt.2 hle hlt
    exact ⟨hout, processMsg_of_not_mem (hn.not_mem hk hs hout)⟩

theorem counts_new (pendingLimit maxOut : Nat) :
    (ProtocolHandler.new pendingLimit maxOut : ProtocolHandler μ E).Counts [] where
  received o s hs := by cases hs
  lt o hmem := by cases hmem

theorem limited_new (pendingLimit maxOut : Nat) :
    (ProtocolHandler.new pendingLimit maxOut : ProtocolHandler μ E).Limited none := by
  intro sid o s m hmem
  cases hmem

/-- **The limits over all runs** in which no subscription is made with the limit `0`. -/
theorem bounds_run {pendingLimit maxOut : Nat} {es : List (ConnectedEvent μ E)}
    (hes : ∀ e ∈ es, e.Limited) (hrun : run (step raise) (new pendingLimit maxOut) es = some c) :
    c.Bounds (dispatches raise (new pendingLimit maxOut) es) := by
  obtain ⟨hk, hl, hc⟩ := limited_run (once_new pendingLimit maxOut).keyed
    (limited_new pendingLimit maxOut) (counts_new pendingLimit maxOut) hes hrun
  obtain ⟨sids, hw⟩ := reaches_run hrun
  exact bounds_of_limited hk (hw.numbered (numbered_new pendingLimit maxOut)) hl hc

/-- A limit of two that the callback lowers to one with its first message. -/
theorem bounds_run_lowered :
    ({ (new 0 2 : Connected Nat Unit) with
        handler :=
          ((ProtocolHandler.new 0 2).subscribe ⟨"a", none, some 2, true, false⟩).processMsg 1 7
          [.unsubscribe 0 (some 1)] } : Connected Nat Unit).Bounds [0] := by
  have hrun : run (step fun _ _ => ()) (new 0 2 : Connected Nat Unit)
      [.handler (.call (.subscribe ⟨"a", none, some 2, true, false⟩)),
        .handler (.message 1 7 [.unsubscribe 0 (some 1)])] =
      some { (new 0 2 : Connected Nat Unit) with
        handler :=
          ((ProtocolHandler.new 0 2).subscribe ⟨"a", none, some 2, true, false⟩).processMsg 1 7
          [.unsubscribe 0 (some 1)] } := rfl
  refine bounds_run (fun e hmem => ?_) hrun
  rcases List.mem_cons.1 hmem with rfl | hmem
  · intro opts hopts
    cases List.mem_singleton.1 hopts
    exact nofun
  · cases List.mem_singleton.1 hmem
    intro opts hopts
    cases List.mem_singleton.1 hopts

/-- A subscription that is made with the limit `0` stays in the table, and gets a message. -/
theorem not_bounds :
    dispatches (fun _ _ => ()) (new 0 2 : Connected Nat Unit)
        [.handler (.call (.subscribe ⟨"a", none, some 0, true, false⟩)),
          .handler (.message 1 7 [])] = [0] ∧
      ¬ ∀ es c, run (step fun _ _ => ()) (new 0 2 : Connected Nat Unit) es = some c →
        c.Bounds (dispatches (fun _ _ => ()) (new 0 2) es) := by
  refine ⟨rfl, fun hall => ?_⟩
  have hbounds := hall [.handler (.call (.subscribe ⟨"a", none, some 0, true, false⟩))] _ rfl
  exact Nat.not_lt_zero _ (hbounds.dispatch 1 0 _ 0 rfl rfl rfl)

end Connected

end NatsClient.Connection
