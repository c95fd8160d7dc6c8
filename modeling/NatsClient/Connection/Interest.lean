import NatsClient.Connection.Table

/-!
# Interest and the calls of the handler

The invariant that relates the table of the handler to the interest table of the server
(`Agreement`), and that every call and every message preserves it (`Inv.call`, `Inv.processMsg`).
While the link is tracked each sid agrees; during a handshake the server knows nothing yet, and a
draining subscription has its UNSUB in the buffer.

Calls that move a draining subscription to another sid are left out (`CallOk`): its continuation
would cancel the new sid without an UNSUB.
-/

set_option autoImplicit false

namespace NatsClient.Connection

open NatsClient.Foundation NatsClient.Iterator

variable {μ E : Type}

namespace ProtocolHandler

/-- Both sides agree on the sids whose counts are trusted; `inflight` counts the messages on their
way to the client. -/
structure Agreement (h : ProtocolHandler μ E) (trusted : Nat → Prop) (sv : Server)
    (inflight : Nat → Nat) : Prop where
  taken_le : sv.taken ≤ h.link.transport.sent.length
  agrees : ∀ sid, trusted sid →
    Agrees h.link.connected (h.wanted sid) (h.link.pendingFrom sv.taken sid)
    (sv.interest sid) (sv.delivered sid) (inflight sid)
  fresh : ∀ sid, h.sidCounter < sid → h.link.pendingFrom sv.taken sid = [] ∧
    sv.interest sid = none ∧ sv.delivered sid = 0 ∧ inflight sid = 0
  /-- During a handshake. -/
  down : h.link.connected = false → ∀ sid, sv.interest sid = none ∧ sv.delivered sid = 0 ∧
    inflight sid = 0 ∧ h.link.transport.sent.filterMap (onSid sid) = []
  drains : h.link.connected = false → ∀ (o d : Nat) (s : SubscriptionImpl μ E), (o, d) ∈ h.drains →
    h.link.outcome d = none → h.objs[o]? = some s → h.link.pendingFrom sv.taken s.sid ≠ []

/-- The invariant of the handler and its server. -/
structure Inv (h : ProtocolHandler μ E) (trusted : Nat → Prop) (sv : Server) (inflight : Nat → Nat)
    (except : Option Nat) : Prop where
  owned : h.link.Owned
  controlled : h.link.Controlled
  table : h.Table except
  agreement : h.link.Tracked → h.Agreement trusted sv inflight

variable {h h' : ProtocolHandler μ E} {trusted : Nat → Prop} {sv : Server} {inflight : Nat → Nat}
  {except : Option Nat} {s s' : SubscriptionImpl μ E} {o : Nat} {xs : List Frame}

/-- Frames are queued, and the table changes accordingly. -/
theorem Agreement.update (a : h.Agreement trusted sv inflight) (hq : h.link.Queues h'.link xs)
    (ht : h'.link.Tracked) (hcounter : h.sidCounter ≤ h'.sidCounter)
    (hfresh : ∀ sid, h'.sidCounter < sid → xs.filterMap (onSid sid) = [])
    (hagrees : ∀ sid, trusted sid → Agrees h.link.connected (h'.wanted sid)
      (h.link.pendingFrom sv.taken sid ++ xs.filterMap (onSid sid)) (sv.interest sid)
      (sv.delivered sid) (inflight sid))
    (hdrains : h.link.connected = false → ∀ (o d : Nat) (s : SubscriptionImpl μ E),
      (o, d) ∈ h'.drains → h'.link.outcome d = none → h'.objs[o]? = some s →
      h.link.pendingFrom sv.taken s.sid ++ xs.filterMap (onSid s.sid) ≠ []) :
    h'.Agreement trusted sv inflight := by
  obtain ⟨-, hconnected⟩ := hq.tracked ht
  have hpending := hq.pending ht sv.taken a.taken_le
  refine ⟨Nat.le_trans a.taken_le hq.sent.length_le, ?_, ?_, ?_, ?_⟩
  · intro sid htrusted
    rw [hconnected, hpending]
    exact hagrees sid htrusted
  · intro sid hlt
    obtain ⟨hnil, hrest⟩ := a.fresh sid (Nat.lt_of_le_of_lt hcounter hlt)
    refine ⟨?_, hrest⟩
    rw [hpending, hnil, hfresh sid hlt]
    rfl
  · intro hdown sid
    obtain ⟨hentry, hdelivered, hinflight, hsent⟩ := a.down (hconnected.symm.trans hdown) sid
    exact ⟨hentry, hdelivered, hinflight, (hq.held ht hdown sid).trans hsent⟩
  · intro hdown o d s hmem hnone hs
    rw [hpending]
    exact hdrains (hconnected.symm.trans hdown) o d s hmem hnone hs

/-- Settled deferreds stay settled. -/
theorem outcome_eq_none {l l' : Link} (he : l.Evolves l') {d : Nat} (hnone : l'.outcome d = none) :
    l.outcome d = none := by
  cases ho : l.outcome d with
  | none => rfl
  | some x =>
      rw [he.settled d x ho] at hnone
      cases hnone

/-- No command is queued, and the sids of the table are wanted as before. -/
theorem Agreement.quiet (a : h.Agreement trusted sv inflight) (hq : h.link.Queues h'.link xs)
    (hxs : ∀ sid, xs.filterMap (onSid sid) = []) (he : h.link.Evolves h'.link)
    (ht : h'.link.Tracked) (hcounter : h'.sidCounter = h.sidCounter)
    (hwanted : ∀ sid, h'.wanted sid = h.wanted sid)
    (hdrains : ∀ (o d : Nat) (s' : SubscriptionImpl μ E), (o, d) ∈ h'.drains →
      h'.objs[o]? = some s' → ∃ s, (o, d) ∈ h.drains ∧ h.objs[o]? = some s ∧ s.sid = s'.sid) :
    h'.Agreement trusted sv inflight := by
  refine a.update hq ht (Nat.le_of_eq hcounter.symm) (fun sid _ => hxs sid)
    (fun sid htrusted => ?_) ?_
  · rw [hwanted, hxs, List.append_nil]
    exact a.agrees sid htrusted
  · intro hdown o d s' hmem hnone hs'
    obtain ⟨s, hmem, hs, hsid⟩ := hdrains o d s' hmem hs'
    rw [hxs, List.append_nil, ← hsid]
    exact a.drains hdown o d s hmem (outcome_eq_none he hnone) hs

/-- A change of the link that queues no command. -/
theorem Inv.link (hi : h.Inv trusted sv inflight except) {l : Link} (hq : h.link.Queues l xs)
    (hxs : ∀ sid, xs.filterMap (onSid sid) = []) (he : h.link.Evolves l) :
    ({ h with link := l } : ProtocolHandler μ E).Inv trusted sv inflight except where
  owned := he.owned hi.owned
  controlled := he.controlled hi.controlled
  table := hi.table.congr rfl rfl rfl rfl he.created
  agreement ht := (hi.agreement (hq.tracked ht).1).quiet hq hxs he ht rfl (wanted_congr rfl rfl)
    fun _ _ s' hmem hs' => ⟨s', hmem, hs', rfl⟩

/-- A change of an object that neither the table nor the server goes by. -/
theorem Inv.setObj (hi : h.Inv trusted sv inflight except) (hs : h.objs[o]? = some s)
    (hreg : s'.registration = s.registration) : (h.setObj o s').Inv trusted sv inflight except := by
  obtain ⟨hsid, hdraining, hwanted⟩ := SubscriptionImpl.wanted_of_registration hreg
  have hreceived : s'.received = s.received := congrArg Wanted.received hwanted
  refine ⟨hi.owned, hi.controlled, hi.table.setObj hs hsid hdraining ?_, fun ht => ?_⟩
  · intro hne hd hmem k hk
    rw [hreceived]
    rw [hwanted] at hk
    exact hi.table.bounded s.sid o s hmem hne hs (hdraining ▸ hd) k hk
  · refine (hi.agreement ht).quiet (.refl _) (fun _ => rfl) (.refl _) ht rfl (fun sid => ?_) ?_
    · rw [hi.table.wanted_setObj hs]
      by_cases hmem : (sid, o) ∈ h.subs
      · rw [if_pos hmem, hi.table.wanted_of_mem hmem hs, hdraining, hwanted]
      · rw [if_neg hmem]
    · intro i d x hmem hx
      rcases setObj_cases hs hx with ⟨rfl, rfl⟩ | ⟨-, hx⟩
      · exact ⟨s, hmem, hs, hsid.symm⟩
      · exact ⟨x, hmem, hx, rfl⟩

/-- `subscriptions.close()` pushes close functions or stops iterators. -/
theorem Inv.closeSubscriptions (hi : h.Inv trusted sv inflight except) :
    h.closeSubscriptions.Inv trusted sv inflight except := by
  apply h.closeSubscriptions_induction (P := fun h => h.Inv trusted sv inflight except) hi
  intro h o s hs hi
  exact hi.setObj hs (SubscriptionImpl.registration_close s)

theorem Inv.setLink (hi : h.Inv trusted sv inflight except) {l : Link} (hq : h.link.Queues l xs)
    (hxs : ∀ sid, xs.filterMap (onSid sid) = []) (he : h.link.Evolves l) :
    (h.setLink l).Inv trusted sv inflight except := by
  unfold ProtocolHandler.setLink
  by_cases hclosing : (l.closed && !h.link.closed) = true
  · rw [if_pos hclosing]
    exact hi.closeSubscriptions.link (h := h.closeSubscriptions) hq hxs he
  · rw [if_neg hclosing]
    exact hi.link hq hxs he

/-- Commands for other sids change nothing. -/
theorem filterMap_unsub_ne {sid i : Nat} (hi : i ≠ sid) (max : Option Nat) :
    [Frame.command (.unsub sid max)].filterMap (onSid i) = [] := by
  simp [onSid, Ne.symm hi]

theorem filterMap_unsub_self (sid : Nat) (max : Option Nat) :
    [Frame.command (.unsub sid max)].filterMap (onSid sid) = [.unsub max] := by
  simp [onSid]

/-! ### Leaving the table -/

/-- An UNSUB is sent for an object that leaves the table, or was not in it. -/
theorem Inv.remove (hi : h.Inv trusted sv inflight except) (hs : h.objs[o]? = some s)
    (hreg : s'.sid = s.sid ∧ s'.draining = s.draining) (max : Option Nat) :
    ({ (h.sendCommand (.unsub s.sid max)).setObj o s' with
      subs := delete h.subs s.sid } : ProtocolHandler μ E).Inv trusted sv inflight except := by
  have hq := h.link.queues_sendCommand (.unsub s.sid max)
  have he := h.link.evolves_sendCommand (.unsub s.sid max)
  refine ⟨he.owned hi.owned, he.controlled hi.controlled, ?_, fun ht => ?_⟩
  · exact (hi.table.remove hs hreg.1 hreg.2).congr rfl rfl rfl rfl he.created
  · have a := hi.agreement (hq.tracked ht).1
    refine a.update hq ht (Nat.le_refl _) (fun i hlt => ?_) (fun i htrusted => ?_) ?_
    · refine filterMap_unsub_ne ?_ max
      rintro rfl
      have hle := hi.table.sid_le o s hs
      exact Nat.not_lt_of_le hle hlt
    · have hw : ({ (h.sendCommand (.unsub s.sid max)).setObj o s' with
          subs := delete h.subs s.sid } : ProtocolHandler μ E).wanted i =
          if i = s.sid then none else h.wanted i :=
        (wanted_congr rfl rfl i).trans (hi.table.wanted_remove hs i)
      rw [hw]
      by_cases hsid : i = s.sid
      · rw [if_pos hsid, hsid, filterMap_unsub_self]
        exact dead_append _ _ max
      · rw [if_neg hsid, filterMap_unsub_ne hsid, List.append_nil]
        exact a.agrees i htrusted
    · intro hdown i d x hmem hnone hx
      have hold : ∃ y, h.objs[i]? = some y ∧ y.sid = x.sid := by
        rcases setObj_cases hs hx with ⟨rfl, rfl⟩ | ⟨-, hx⟩
        · exact ⟨s, hs, hreg.1.symm⟩
        · exact ⟨x, hx, rfl⟩
      obtain ⟨y, hy, hysid⟩ := hold
      rw [← hysid]
      exact List.append_ne_nil_of_left_ne_nil
        (a.drains hdown i d y hmem (outcome_eq_none he hnone) hy) _

/-- An object gets a limit that is still to be reached. -/
theorem Inv.limit {max : Nat} (hi : h.Inv trusted sv inflight except) (hs : h.objs[o]? = some s)
    (hlt : s.received < max) :
    ((h.sendCommand (.unsub s.sid (some max))).setObj o { s with max := some max }).Inv
      trusted sv inflight except := by
  have hq := h.link.queues_sendCommand (.unsub s.sid (some max))
  have he := h.link.evolves_sendCommand (.unsub s.sid (some max))
  have hne : max ≠ 0 := by omega
  have hlimit : SubscriptionImpl.limitOf (some max) = some max := by
    simp [SubscriptionImpl.limitOf, hne]
  refine ⟨he.owned hi.owned, he.controlled hi.controlled, ?_, fun ht => ?_⟩
  · have hset : (h.setObj o { s with max := some max }).Table except := by
      refine hi.table.setObj hs rfl rfl fun _ _ _ k hk => ?_
      have heq : SubscriptionImpl.limitOf (some max) = some k := hk
      rw [hlimit, Option.some.injEq] at heq
      rw [← heq]
      exact hlt
    exact hset.congr rfl rfl rfl rfl he.created
  · have a := hi.agreement (hq.tracked ht).1
    refine a.update hq ht (Nat.le_refl _) (fun i hfresh => ?_) (fun i htrusted => ?_) ?_
    · refine filterMap_unsub_ne ?_ _
      rintro rfl
      exact Nat.not_lt_of_le (hi.table.sid_le o s hs) hfresh
    · have hw : ((h.sendCommand (.unsub s.sid (some max))).setObj o
          { s with max := some max }).wanted i = _ :=
        (wanted_congr rfl rfl i).trans (hi.table.wanted_setObj hs i)
      rw [hw]
      have ha := a.agrees i htrusted
      by_cases hsid : i = s.sid
      · subst hsid
        rw [filterMap_unsub_self]
        by_cases hmem : (s.sid, o) ∈ h.subs
        · rw [hi.table.wanted_of_mem hmem hs] at ha
          rw [if_pos hmem]
          by_cases hd : s.draining = true
          · rw [if_pos hd]
            -- a drain has asked for the UNSUB already
            exact dead_append _ _ _
          · rw [if_neg hd]
            rw [if_neg hd] at ha
            -- the server will read the limit behind all it was sent before
            have hlive := (show Live _ s.wanted _ _ _ _ from ha).append max
            have hsame : ({ s with max := some max } : SubscriptionImpl μ E).wanted =
                { s.wanted with limit := some max } := by
              show Wanted.mk _ _ (SubscriptionImpl.limitOf (some max)) _ = _
              rw [hlimit]
              rfl
            rw [hsame]
            exact hlive
        · -- the subscription was removed, so that the UNSUB finds nothing
          rw [if_neg hmem, hi.table.wanted_eq_none hs hmem]
          exact dead_append _ _ _
      · have hmem : (i, o) ∉ h.subs := fun hmem => hsid (hi.table.sid_eq hs hmem)
        rw [if_neg hmem, filterMap_unsub_ne hsid, List.append_nil]
        exact ha
    · intro hdown i d x hmem hnone hx
      -- drains look at sids alone, which a limit leaves
      have hold : ∃ y, h.objs[i]? = some y ∧ y.sid = x.sid := by
        rcases setObj_cases hs hx with ⟨rfl, rfl⟩ | ⟨-, hx⟩
        · exact ⟨s, hs, rfl⟩
        · exact ⟨x, hx, rfl⟩
      obtain ⟨y, hy, hysid⟩ := hold
      rw [← hysid]
      exact List.append_ne_nil_of_left_ne_nil
        (a.drains hdown i d y hmem (outcome_eq_none he hnone) hy) _

/-- A subscription leaves the table of a closed connection, or one that is draining does. -/
theorem Inv.cancel (hi : h.Inv trusted sv inflight except) (hs : h.objs[o]? = some s)
    (hdead : h.link.Tracked → h.wanted s.sid = none) :
    (h.cancel o s).Inv trusted sv inflight except := by
  have hreg := SubscriptionImpl.wanted_of_registration (SubscriptionImpl.registration_close s)
  refine ⟨hi.owned, hi.controlled, hi.table.remove hs hreg.1 hreg.2.1, fun ht => ?_⟩
  refine (hi.agreement ht).quiet (.refl _) (fun _ => rfl) (.refl _) ht rfl (fun i => ?_) ?_
  · refine Eq.trans (hi.table.wanted_remove hs i) ?_
    by_cases hsid : i = s.sid
    · rw [if_pos hsid, hsid, hdead ht]
    · rw [if_neg hsid]
  · intro i d x hmem hx
    rcases setObj_cases hs hx with ⟨rfl, rfl⟩ | ⟨-, hx⟩
    · exact ⟨s, hmem, hs, hreg.1.symm⟩
    · exact ⟨x, hmem, hx, rfl⟩

/-- **`unsubscribe`**. -/
theorem Inv.unsubscribe (hi : h.Inv trusted sv inflight except) (o : Nat) (max : Option Nat) :
    (h.unsubscribe o max).Inv trusted sv inflight except := by
  unfold ProtocolHandler.unsubscribe
  cases hs : h.objs[o]? with
  | none => exact hi
  | some s =>
      by_cases hclosed : h.link.closed = true
      · -- nothing is sent on a closed connection
        have hsame : h.unsub o s max = h := by rw [ProtocolHandler.unsub, if_pos hclosed]
        have hsub : s.unsub max h.link.closed = s := by rw [SubscriptionImpl.unsub, if_pos hclosed]
        simp only [hsame, hsub]
        by_cases hspent : s.isSpent = true
        · rw [if_pos hspent]
          refine hi.cancel hs fun ht => ?_
          rw [ht.not_closed] at hclosed
          cases hclosed
        · rw [if_neg hspent]
          exact hi
      · have hsame : h.unsub o s max =
            (h.sendCommand (.unsub s.sid (SubscriptionImpl.limitOf max))).setObj o
              { s with max := max } := by
          rw [ProtocolHandler.unsub, if_neg hclosed, SubscriptionImpl.unsub]
          rfl
        have hsub : s.unsub max h.link.closed = { s with max := max } := by
          rw [SubscriptionImpl.unsub, if_neg hclosed]
        simp only [hsame, hsub]
        by_cases hspent : ({ s with max := max } : SubscriptionImpl μ E).isSpent = true
        · rw [if_pos hspent]
          have hreg := SubscriptionImpl.wanted_of_registration
            (SubscriptionImpl.registration_close ({ s with max := max } : SubscriptionImpl μ E))
          have hcancel := hi.remove hs ⟨hreg.1, hreg.2.1⟩ (SubscriptionImpl.limitOf max)
          unfold ProtocolHandler.cancel ProtocolHandler.setObj
          simp only [List.set_set]
          exact hcancel
        · rw [if_neg hspent]
          cases max with
          | none => exact absurd rfl hspent
          | some max =>
              have hlt : s.received < max := by
                by_contra hge
                exact hspent (decide_eq_true (Nat.le_of_not_lt hge))
              have hne : max ≠ 0 := by omega
              have hlimit : SubscriptionImpl.limitOf (some max) = some max := by
                simp [SubscriptionImpl.limitOf, hne]
              rw [hlimit]
              exact hi.limit hs hlt

/-- The continuation of a drain. -/
theorem Inv.drained {d : Nat} (hi : h.Inv trusted sv inflight except) (hmem : (o, d) ∈ h.drains) :
    (h.drained o d).Inv trusted sv inflight except := by
  obtain ⟨-, s, hs, hdraining⟩ := hi.table.drains o d hmem
  have hdead : h.wanted s.sid = none := by
    by_cases hin : (s.sid, o) ∈ h.subs
    · rw [hi.table.wanted_of_mem hin hs, if_pos hdraining]
    · exact hi.table.wanted_eq_none hs hin
  have hc := hi.cancel hs fun _ => hdead
  unfold ProtocolHandler.drained
  rw [hs]
  refine ⟨hc.owned, hc.controlled, ?_, fun ht => ?_⟩
  · have t := hc.table
    refine ⟨t.mem, t.nodup, t.sid_le, t.inj, ?_, ?_, t.bounded⟩
    · intro sid i x hmem' hx hdx
      obtain ⟨d', hd'⟩ := t.draining sid i x hmem' hx hdx
      refine ⟨d', (List.mem_erase_of_ne ?_).2 hd'⟩
      -- the object left the table
      rintro heq
      have hio : i = o := (Prod.mk.inj heq).1
      subst hio
      obtain ⟨hin, hne⟩ := mem_delete.1 hmem'
      exact hne (hi.table.sid_eq hs hin)
    · exact fun i d' hmem' => t.drains i d' (List.mem_of_mem_erase hmem')
  · refine (hc.agreement ht).quiet (.refl _) (fun _ => rfl) (.refl _) ht rfl
      (wanted_congr rfl rfl) ?_
    exact fun i d' x hmem' hx => ⟨x, List.mem_of_mem_erase hmem', hx, rfl⟩

/-- A subscription starts to drain. -/
theorem Inv.startDrain {l : Link} {d : Nat} (hi : h.Inv trusted sv inflight except)
    (hs : h.objs[o]? = some s) (s' : SubscriptionImpl μ E) (hsid : s'.sid = s.sid)
    (hdraining : s'.draining = true) (hq : h.link.Queues l [.command (.unsub s.sid none), .ping d])
    (he : h.link.Evolves l) (hd : d < l.deferreds.created) :
    ({ h.setObj o s' with link := l, drains := h.drains ++ [(o, d)] } :
      ProtocolHandler μ E).Inv trusted sv inflight except := by
  refine ⟨he.owned hi.owned, he.controlled hi.controlled,
    hi.table.drain hs hsid hdraining he.created hd, fun ht => ?_⟩
  have a := hi.agreement (hq.tracked ht).1
  have hframes : ∀ i, [Frame.command (.unsub s.sid none), .ping d].filterMap (onSid i) =
      [Frame.command (.unsub s.sid none)].filterMap (onSid i) := by
    intro i
    -- the PING has no sid
    rw [List.filterMap_cons, List.filterMap_cons (l := [])]
    rfl
  refine a.update hq ht (Nat.le_refl _) (fun i hlt => ?_) (fun i htrusted => ?_) ?_
  · rw [hframes]
    refine filterMap_unsub_ne ?_ none
    rintro rfl
    exact Nat.not_lt_of_le (hi.table.sid_le o s hs) hlt
  · have hw : ({ h.setObj o s' with link := l, drains := h.drains ++ [(o, d)] } :
        ProtocolHandler μ E).wanted i = _ :=
      (wanted_congr rfl rfl i).trans (hi.table.wanted_setObj hs i)
    rw [hw, hframes]
    by_cases hmem : (i, o) ∈ h.subs
    · rw [if_pos hmem, if_pos hdraining, hi.table.sid_eq hs hmem, filterMap_unsub_self]
      exact dead_append _ _ none
    · rw [if_neg hmem]
      by_cases hsid : i = s.sid
      · subst hsid
        rw [hi.table.wanted_eq_none hs hmem, filterMap_unsub_self]
        -- the UNSUB of a subscription that was removed finds nothing
        exact dead_append _ _ none
      · rw [filterMap_unsub_ne hsid, List.append_nil]
        exact a.agrees i htrusted
  · intro hdown i d' x hmem hnone hx
    rcases setObj_cases hs hx with ⟨rfl, rfl⟩ | ⟨hne, hx⟩
    · -- the new drain waits for the UNSUB that was just queued
      rw [hsid, hframes, filterMap_unsub_self]
      exact List.append_ne_nil_of_right_ne_nil _ (List.cons_ne_nil _ _)
    · rcases List.mem_append.1 hmem with hmem | hmem
      · exact List.append_ne_nil_of_left_ne_nil
          (a.drains hdown i d' x hmem (outcome_eq_none he hnone) hx) _
      · exact absurd (Prod.mk.inj (List.mem_singleton.1 hmem)).1 hne

/-- **`drain` of a subscription**: its sid is not wanted any more, and its UNSUB is sent. -/
theorem Inv.drainSub (hi : h.Inv trusted sv inflight except) (o : Nat) :
    (h.drainSub o).Inv trusted sv inflight except := by
  unfold ProtocolHandler.drainSub
  cases hs : h.objs[o]? with
  | none => exact hi
  | some s =>
      by_cases hskip : (h.link.closed || s.isClosed || s.draining) = true
      · simp only [if_pos hskip]
        exact hi
      · simp only [if_neg hskip]
        rw [Bool.or_eq_true, Bool.or_eq_true, not_or, not_or] at hskip
        obtain ⟨⟨hclosed, -⟩, -⟩ := hskip
        have hunsub : (h.setObj o { s with draining := true }).unsub o
          { s with draining := true } none =
            (h.sendCommand (.unsub s.sid none)).setObj o
            { s with draining := true, max := none } := by
          rw [ProtocolHandler.unsub, if_neg (show ¬ (h.setObj o _).link.closed = true from hclosed)]
          unfold ProtocolHandler.setObj ProtocolHandler.sendCommand
          simp only [List.set_set]
          rfl
        rw [hunsub]
        have hq := (h.link.queues_sendCommand (.unsub s.sid none)).trans (Link.queues_flush _)
        have he := (h.link.evolves_sendCommand (.unsub s.sid none)).trans (Link.evolves_flush _)
        have hlt : (h.link.sendCommand (.unsub s.sid none)).deferreds.created <
            (h.link.sendCommand (.unsub s.sid none)).flush.deferreds.created := by
          rw [(Link.frame_flush _).1]
          exact Nat.lt_succ_self _
        exact hi.startDrain hs { s with draining := true, max := none } rfl rfl hq he hlt

/-! ### Entering the table -/

theorem filterMap_sub_ne {sid i : Nat} (hi : i ≠ sid) (subject : String) (queue : Option String) :
    [Frame.command (.sub subject queue sid)].filterMap (onSid i) = [] := by
  simp [onSid, Ne.symm hi]

theorem filterMap_sub_self (sid : Nat) (subject : String) (queue : Option String) :
    [Frame.command (.sub subject queue sid)].filterMap (onSid sid) = [.sub subject queue] := by
  simp [onSid]

/-- An object enters the table under a new sid, behind what the other sids agree on. -/
theorem Agreement.insert (a : h.Agreement trusted sv inflight) (h₁ : ProtocolHandler μ E)
    (ys : List Frame) (hq : h.link.Queues h'.link (ys ++ [.command s.subCommand]))
    (he : h.link.Evolves h'.link) (ht : h'.link.Tracked) (hsid : s.sid = h.sidCounter + 1)
    (hcounter : h'.sidCounter = h.sidCounter + 1)
    (hys : ∀ i, h.sidCounter < i → ys.filterMap (onSid i) = [])
    (hwanted : ∀ i, h'.wanted i = if i = s.sid then some s.wanted else h₁.wanted i)
    (hagrees : ∀ i, trusted i → i ≤ h.sidCounter → Agrees h.link.connected (h₁.wanted i)
      (h.link.pendingFrom sv.taken i ++ ys.filterMap (onSid i)) (sv.interest i) (sv.delivered i)
      (inflight i))
    (hfresh : ∀ i, h.sidCounter < i → h₁.wanted i = none)
    (hdrains : ∀ (i d : Nat) (x : SubscriptionImpl μ E), (i, d) ∈ h'.drains →
      h'.objs[i]? = some x → (i, d) ∈ h.drains ∧ h.objs[i]? = some x) :
    h'.Agreement trusted sv inflight := by
  have hframes : ∀ i, (ys ++ [Frame.command s.subCommand]).filterMap (onSid i) =
      ys.filterMap (onSid i) ++ if i = s.sid then [.sub s.subject s.group] else [] := by
    intro i
    rw [List.filterMap_append, SubscriptionImpl.subCommand]
    by_cases hi : i = s.sid
    · rw [if_pos hi, hi, filterMap_sub_self]
    · rw [if_neg hi, filterMap_sub_ne hi]
  refine a.update hq ht (by omega) (fun i hlt => ?_) (fun i htrusted => ?_) ?_
  · rw [hframes, hys i (by omega), if_neg (by omega)]
    rfl
  · rw [hframes, hwanted]
    by_cases hi : i = s.sid
    · obtain ⟨hnil, hentry, hdelivered, hinflight⟩ := a.fresh i (by omega)
      rw [if_pos hi, if_pos hi, hnil, hys i (by omega), hentry, hdelivered, hinflight]
      exact live_new _ s.wanted
    · rw [if_neg hi, if_neg hi, List.append_nil]
      by_cases hlt : h.sidCounter < i
      · obtain ⟨hnil, hentry, -, -⟩ := a.fresh i hlt
        rw [hfresh i hlt, hnil, hys i hlt, hentry]
        exact ⟨fun _ => rfl, fun hne => absurd rfl hne⟩
      · exact hagrees i htrusted (Nat.le_of_not_lt hlt)
  · intro hdown i d x hmem hnone hx
    obtain ⟨hmem, hx⟩ := hdrains i d x hmem hx
    exact List.append_ne_nil_of_left_ne_nil
      (a.drains hdown i d x hmem (outcome_eq_none he hnone) hx) _

/-- **`subscribe`**. -/
theorem Inv.subscribe (hi : h.Inv trusted sv inflight except) (opts : SubscriptionOptions) :
    (h.subscribe opts).Inv trusted sv inflight except := by
  -- the SUB alone, and then the limit, which is an `unsubscribe`
  have hnew : ∀ s : SubscriptionImpl μ E, s.sid = h.sidCounter + 1 → s.draining = false →
      s.received = 0 →
      ({ h with
        sidCounter := h.sidCounter + 1
        objs := h.objs ++ [s]
        subs :=
          h.subs ++ [(h.sidCounter + 1, h.objs.length)] }.sendCommand s.subCommand).Inv trusted sv
          inflight except := by
    intro s hsid hd hreceived
    have hq := h.link.queues_sendCommand s.subCommand
    have he := h.link.evolves_sendCommand s.subCommand
    have tappend := hi.table.append hsid
    have hs : (h.objs ++ [s])[h.objs.length]? = some s := List.getElem?_concat_length
    -- the counter is above all sids of the table
    have hout : ∀ i, (s.sid, i) ∉ h.subs := by
      rw [hsid]
      exact hi.table.not_mem_of_lt (Nat.lt_succ_self _)
    have hbound : ∀ k, s.wanted.limit = some k → s.received < k := by
      intro k hk
      have hne : k ≠ 0 := by
        have hfilter : s.max.filter (· ≠ 0) = some k := hk
        rw [Option.filter_eq_some_iff] at hfilter
        simpa using hfilter.2
      omega
    have tinsert := tappend.insert hs hout hd hbound
    have hwanted := tappend.wanted_insert hs hout hd hbound
    rw [hsid] at tinsert hwanted
    refine ⟨he.owned hi.owned, he.controlled hi.controlled,
      tinsert.congr rfl rfl rfl rfl he.created, fun ht => ?_⟩
    have a := hi.agreement (hq.tracked ht).1
    refine a.insert (s := s) h [] hq he ht hsid rfl (fun _ _ => rfl) (fun i => ?_)
      (fun i htrusted _ => ?_) (fun i hlt => wanted_eq_none (hi.table.not_mem_of_lt hlt)) ?_
    · have hw := hwanted i
      rw [hi.table.wanted_append] at hw
      rw [hsid, ← hw]
      exact wanted_congr rfl rfl i
    · rw [List.filterMap_nil, List.append_nil]
      exact a.agrees i htrusted
    · intro i d x hmem hx
      obtain ⟨-, y, hy, -⟩ := hi.table.drains i d hmem
      have hxy : (h.objs ++ [s])[i]? = some x := hx
      rw [List.getElem?_append_left (List.getElem?_eq_some_iff.1 hy).1] at hxy
      exact ⟨hmem, hxy⟩
  unfold ProtocolHandler.subscribe
  cases SubscriptionImpl.limitOf opts.max with
  | none => exact hnew _ rfl rfl rfl
  | some max => exact (hnew _ rfl rfl rfl).unsubscribe _ _

/-- **`resub`** of a subscription that is not draining: its old sid gets an UNSUB, and it enters the
table under a new one. -/
theorem Inv.resub (hi : h.Inv trusted sv inflight except) (o : Nat) (subject : String)
    (hok : ∀ s, h.objs[o]? = some s → s.draining = false) :
    (h.resub o subject).Inv trusted sv inflight except := by
  unfold ProtocolHandler.resub
  cases hs : h.objs[o]? with
  | none => exact hi
  | some s =>
      by_cases hclosed : h.link.closed = true
      · simp only [if_pos hclosed]
        exact hi
      · simp only [if_neg hclosed]
        have hd : s.draining = false := hok s hs
        -- the subscription moves to the new sid outside of the table
        have hmoved : ∀ s' : SubscriptionImpl μ E, s'.sid = h.sidCounter + 1 → s'.draining = false →
            s'.wanted.limit = none →
            ({ (h.unsub o s none).setObj o s' with
              sidCounter := h.sidCounter + 1
              subs := delete h.subs s.sid ++ [(h.sidCounter + 1, o)] }.sendCommand
                s'.subCommand).Inv trusted sv inflight except := by
          intro s' hsid hd' hlimit
          have hunsub : (h.unsub o s none).setObj o s' =
              (h.sendCommand (.unsub s.sid none)).setObj o s' := by
            rw [ProtocolHandler.unsub, if_neg hclosed]
            unfold ProtocolHandler.setObj
            simp only [List.set_set]
            rfl
          rw [hunsub]
          have hq := (h.link.queues_sendCommand (.unsub s.sid none)).trans
            (Link.queues_sendCommand _ s'.subCommand)
          have he := (h.link.evolves_sendCommand (.unsub s.sid none)).trans
            (Link.evolves_sendCommand _ s'.subCommand)
          have tdelete := hi.table.delete s.sid
          have hout : ∀ sid, (sid, o) ∉ delete h.subs s.sid := by
            intro sid hmem
            obtain ⟨hmem, hne⟩ := mem_delete.1 hmem
            exact hne (hi.table.sid_eq hs hmem)
          have tmove := tdelete.move hs s' hout hsid (hd'.trans hd.symm)
          have hs' : (h.setObj o s').objs[o]? = some s' := setObj_self hs
          have hnew : ∀ i, (s'.sid, i) ∉ delete h.subs s.sid := by
            rw [hsid]
            exact tdelete.not_mem_of_lt (Nat.lt_succ_self _)
          have hbound : ∀ k, s'.wanted.limit = some k → s'.received < k := by
            intro k hk
            rw [hlimit] at hk
            cases hk
          have tinsert := tmove.insert hs' hnew hd' hbound
          have hwanted := tmove.wanted_insert hs' hnew hd' hbound
          rw [hsid] at tinsert hwanted
          refine ⟨he.owned hi.owned, he.controlled hi.controlled,
            tinsert.congr rfl rfl rfl rfl he.created, fun ht => ?_⟩
          have a := hi.agreement (hq.tracked ht).1
          have hle := hi.table.sid_le o s hs
          have hgone : ∀ i,
              ({ h with subs := delete h.subs s.sid } : ProtocolHandler μ E).wanted i =
              if i = s.sid then none else h.wanted i := hi.table.wanted_delete s.sid
          refine a.insert (s := s') { h with subs := delete h.subs s.sid }
            [.command (.unsub s.sid none)] hq he ht hsid rfl (fun i hlt => ?_)
            (fun i => ?_) (fun i htrusted _ => ?_) (fun i hlt => ?_) ?_
          · exact filterMap_unsub_ne (by omega) none
          · have hw := hwanted i
            have hsame := wanted_move (h := { h with subs := delete h.subs s.sid }) hout s'
              (h.sidCounter + 1) i
            rw [hsid, ← hsame]
            exact (wanted_congr rfl rfl i).trans hw
          · rw [hgone]
            by_cases hsid : i = s.sid
            · rw [if_pos hsid, hsid, filterMap_unsub_self]
              exact dead_append _ _ none
            · rw [if_neg hsid, filterMap_unsub_ne hsid, List.append_nil]
              exact a.agrees i htrusted
          · rw [hgone, wanted_eq_none (hi.table.not_mem_of_lt hlt)]
            by_cases hsid : i = s.sid
            · rw [if_pos hsid]
            · rw [if_neg hsid]
          · intro i d x hmem hx
            obtain ⟨-, y, hy, hdy⟩ := hi.table.drains i d hmem
            rcases setObj_cases hs hx with ⟨rfl, -⟩ | ⟨-, hx⟩
            · rw [hs, Option.some.injEq] at hy
              rw [← hy, hd] at hdy
              cases hdy
            · exact ⟨hmem, hx⟩
        exact hmoved _ rfl hd rfl

/-! ### Calls and messages -/

/-- The calls that are covered: a draining subscription is not moved to another subject. -/
def CallOk (h : ProtocolHandler μ E) : Call → Prop
  | .resub o _ => ∀ s ∈ h.objs[o]?, s.draining = false
  | _ => True

instance (h : ProtocolHandler μ E) : (c : Call) → Decidable (h.CallOk c)
  | .resub o _ => inferInstanceAs (Decidable (∀ s ∈ h.objs[o]?, s.draining = false))
  | .subscribe _ | .unsubscribe _ _ | .drain _ | .publish _ _ | .flush | .reconnect | .close =>
      inferInstanceAs (Decidable True)

/-- Each of some calls is covered. -/
def CallsOk (h : ProtocolHandler μ E) : List Call → Prop
  | [] => True
  | c :: cs => h.CallOk c ∧ (h.call c).CallsOk cs

instance decidableCallsOk (h : ProtocolHandler μ E) : (cs : List Call) → Decidable (h.CallsOk cs)
  | [] => inferInstanceAs (Decidable True)
  | c :: cs =>
      have := decidableCallsOk (h.call c) cs
      inferInstanceAs (Decidable (_ ∧ _))

/-- **Calls**. -/
theorem Inv.call {c : Call} (hi : h.Inv trusted sv inflight except) (hok : h.CallOk c) :
    (h.call c).Inv trusted sv inflight except := by
  cases c with
  | subscribe opts => exact hi.subscribe opts
  | unsubscribe o max => exact hi.unsubscribe o max
  | drain o => exact hi.drainSub o
  | resub o subject => exact hi.resub o subject fun s hs => hok s hs
  | publish proto payload =>
      exact hi.link (Link.queues_sendCommand _ _) (fun _ => rfl) (Link.evolves_sendCommand _ _)
  | flush => exact hi.link (Link.queues_flush _) (fun _ => rfl) (Link.evolves_flush _)
  | reconnect =>
      show (if h.link.connected then _ else _ : ProtocolHandler μ E).Inv trusted sv inflight except
      by_cases hon : h.link.connected = true
      · rw [if_pos hon]
        exact hi.link (Link.queues_closeTransport _ true) (fun _ => rfl)
          (Link.evolves_closeTransport _ true)
      · rw [if_neg hon]
        exact hi
  | close => exact hi.setLink (Link.queues_close _) (fun _ => rfl) (Link.evolves_close _)

theorem Inv.calls {cs : List Call} (hi : h.Inv trusted sv inflight except) (hok : h.CallsOk cs) :
    (h.calls cs).Inv trusted sv inflight except := by
  induction cs generalizing h with
  | nil => exact hi
  | cons c cs ih => exact ih (hi.call hok.1) hok.2

variable {inflight' : Nat → Nat} {sid : Nat}

/-- A message for a sid that is not wanted is not counted. -/
theorem Inv.skip (hi : h.Inv trusted sv inflight except) (hdead : h.wanted sid = none)
    (hsid : inflight sid = inflight' sid + 1) (hne : ∀ i, i ≠ sid → inflight' i = inflight i) :
    h.Inv trusted sv inflight' except := by
  refine ⟨hi.owned, hi.controlled, hi.table, fun ht => ?_⟩
  have a := hi.agreement ht
  refine ⟨a.taken_le, fun i htrusted => ?_, fun i hlt => ?_, fun hdown i => ?_, a.drains⟩
  · have ha := a.agrees i htrusted
    by_cases hi : i = sid
    · subst hi
      rw [hdead] at ha ⊢
      exact ha
    · rw [hne i hi]
      exact ha
  · obtain ⟨hnil, hentry, hdelivered, hinflight⟩ := a.fresh i hlt
    refine ⟨hnil, hentry, hdelivered, ?_⟩
    by_cases hi : i = sid
    · subst hi
      omega
    · rw [hne i hi, hinflight]
  · obtain ⟨hentry, hdelivered, hinflight, hsent⟩ := a.down hdown i
    refine ⟨hentry, hdelivered, ?_, hsent⟩
    by_cases hi : i = sid
    · subst hi
      omega
    · rw [hne i hi, hinflight]

/-- A message is counted by its subscription, which then is in the middle of `processMsg`. -/
theorem Inv.receive (hi : h.Inv trusted sv inflight none) (hmem : (sid, o) ∈ h.subs)
    (hs : h.objs[o]? = some s) (hsid : inflight sid = inflight' sid + 1)
    (hne : ∀ i, i ≠ sid → inflight' i = inflight i) :
    (h.setObj o s.receive).Inv trusted sv inflight' (some o) := by
  -- in `processMsg` the object is over its limit until it is removed
  have t : h.Table (some o) :=
    ⟨hi.table.mem, hi.table.nodup, hi.table.sid_le, hi.table.inj, hi.table.draining,
      hi.table.drains, fun sid i x hmem _ => hi.table.bounded sid i x hmem (by simp)⟩
  refine ⟨hi.owned, hi.controlled, t.setObj hs rfl rfl fun hne _ _ => absurd rfl hne, fun ht => ?_⟩
  have a := hi.agreement ht
  refine ⟨a.taken_le, fun i htrusted => ?_, fun i hlt => ?_, fun hdown i => ?_, ?_⟩
  · have ha := a.agrees i htrusted
    rw [t.wanted_setObj hs]
    by_cases hi : i = sid
    · subst hi
      rw [if_pos hmem]
      rw [t.wanted_of_mem hmem hs, hsid] at ha
      by_cases hd : s.draining = true
      · rw [if_pos hd] at ha
        rw [if_pos (show s.receive.draining = true from hd)]
        exact ha
      · -- the message that was in flight is one of the received
        rw [if_neg hd] at ha
        rw [if_neg (show ¬ s.receive.draining = true from hd)]
        exact Live.receive ha
    · have hout : (i, o) ∉ h.subs := by
        intro hmem'
        exact hi ((t.sid_eq hs hmem').trans (t.sid_eq hs hmem).symm)
      rw [if_neg hout, hne i hi]
      exact ha
  · -- nothing is in flight for a sid that was not given out
    obtain ⟨hnil, hentry, hdelivered, hinflight⟩ := a.fresh i hlt
    refine ⟨hnil, hentry, hdelivered, ?_⟩
    by_cases hi : i = sid
    · subst hi
      omega
    · rw [hne i hi, hinflight]
  · obtain ⟨hentry, hdelivered, hinflight, hsent⟩ := a.down hdown i
    refine ⟨hentry, hdelivered, ?_, hsent⟩
    by_cases hi : i = sid
    · subst hi
      omega
    · rw [hne i hi, hinflight]
  · intro hdown i d x hmem' hnone hx
    rcases setObj_cases hs hx with ⟨rfl, rfl⟩ | ⟨-, hx⟩
    · exact a.drains hdown i d s hmem' hnone hs
    · exact a.drains hdown i d x hmem' hnone hx

/-- Behind `processMsg` a subscription of the table waits for more messages. -/
theorem Inv.settle (hi : h.Inv trusted sv inflight (some o))
    (hbound : ∀ (sid : Nat) (s : SubscriptionImpl μ E), (sid, o) ∈ h.subs → h.objs[o]? = some s →
      s.draining = false → ∀ k, s.wanted.limit = some k → s.received < k) :
    h.Inv trusted sv inflight none := by
  have t := hi.table
  refine ⟨hi.owned, hi.controlled, ⟨t.mem, t.nodup, t.sid_le, t.inj, t.draining, t.drains, ?_⟩,
    hi.agreement⟩
  intro sid i x hmem _ hx hd k hk
  by_cases hi : i = o
  · subst hi
    exact hbound sid x hmem hx hd k hk
  · exact t.bounded sid i x hmem (fun heq => hi (Option.some.inj heq).symm) hx hd k hk

theorem Inv.checkMax (hi : h.Inv trusted sv inflight (some o)) :
    (h.checkMax o).Inv trusted sv inflight none := by
  unfold ProtocolHandler.checkMax
  cases hs : h.objs[o]? with
  | none =>
      refine hi.settle fun sid s _ hs' => ?_
      rw [hs] at hs'
      cases hs'
  | some s =>
      by_cases hmax : s.reachedMax = true
      · simp only [if_pos hmax]
        refine (hi.unsubscribe o none).settle fun sid s' hmem _ => ?_
        rw [subs_unsubscribe_of_reachedMax hs hmax] at hmem
        obtain ⟨hmem, hne⟩ := mem_delete.1 hmem
        exact absurd (hi.table.sid_eq hs hmem) hne
      · simp only [if_neg hmax]
        refine hi.settle fun sid s' _ hs' _ k hk => ?_
        rw [hs, Option.some.injEq] at hs'
        subst hs'
        have hfilter : s.max.filter (· ≠ 0) = some k := hk
        rw [Option.filter_eq_some_iff] at hfilter
        by_contra hge
        refine hmax ?_
        unfold SubscriptionImpl.reachedMax
        rw [hfilter.1]
        exact decide_eq_true (Nat.le_of_not_lt hge)

/-- The callback of a message is covered. -/
def MsgOk (h : ProtocolHandler μ E) (sid : Nat) (cs : List Call) : Prop :=
  ∀ o ∈ h.get sid, ∀ s ∈ h.objs[o]?, s.noIterator = true → (h.setObj o s.receive).CallsOk cs

instance (h : ProtocolHandler μ E) (sid : Nat) (cs : List Call) : Decidable (h.MsgOk sid cs) :=
  inferInstanceAs (Decidable (∀ o ∈ h.get sid, ∀ s ∈ h.objs[o]?, _ → _))

/-- **A message**. -/
theorem Inv.processMsg {v : μ} {cs : List Call} (hi : h.Inv trusted sv inflight none)
    (hsid : inflight sid = inflight' sid + 1) (hne : ∀ i, i ≠ sid → inflight' i = inflight i)
    (hok : h.MsgOk sid cs) : (h.processMsg sid v cs).Inv trusted sv inflight' none := by
  unfold ProtocolHandler.processMsg
  cases hget : h.get sid with
  | none =>
      have hdead : h.wanted sid = none := by
        rw [wanted, find, hget]
        rfl
      exact hi.skip hdead hsid hne
  | some o =>
      have hmem := mem_of_get hget
      obtain ⟨s, hs, -⟩ := hi.table.mem sid o hmem
      simp only [hs]
      have hreceived := hi.receive hmem hs hsid hne
      apply Inv.checkMax
      unfold ProtocolHandler.dispatch
      by_cases hcallback : s.noIterator = true
      · rw [if_pos (show s.receive.noIterator = true from hcallback)]
        exact hreceived.calls (hok o hget s hs hcallback)
      · rw [if_neg (show ¬ s.receive.noIterator = true from hcallback)]
        exact hreceived.setObj (setObj_self hs) (SubscriptionImpl.registration_push _ v)

end ProtocolHandler

end NatsClient.Connection
