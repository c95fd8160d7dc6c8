import NatsClient.Connection.Draining
import NatsClient.Iterator.Stopping
import Mathlib.Logic.Relation

/-!
# What calls do to the subscriptions

Whatever a call does to the objects of the handler is a sequence of few kinds of updates (`Touch`):
an object changes while its iterator stays or is closed, leaves the table, moves to a new sid,
begins to drain, or a new one enters the table. `P` says which objects may be touched. The others
keep everything, their place in the table included (`Touches.untouched`); one that drains and has no
limit can only be touched by calls that name it and by the close of the connection (`touches_call`,
`touches_processMsg`).

While a subscription is not ended it is in the table, and its iterator was given values only, those
the handler dispatched to it at the end (`Feeds`).
-/

set_option autoImplicit false

namespace NatsClient.Connection

open NatsClient.Foundation NatsClient.Iterator

variable {μ E : Type}

namespace SubscriptionImpl

variable {s s' : SubscriptionImpl μ E}

/-- The iterator is as it was, or it is closed. -/
structure Follows (s s' : SubscriptionImpl μ E) : Prop where
  kind : s'.noIterator = s.noIterator
  draining : s.draining = true → s'.draining = true
  iter : s'.iter = s.iter ∨ s'.iter = s.close.iter

theorem follows_of_iter (hkind : s'.noIterator = s.noIterator)
    (hdraining : s'.draining = s.draining) (hiter : s'.iter = s.iter) : s.Follows s' :=
  ⟨hkind, fun h => hdraining.trans h, .inl hiter⟩

theorem draining_close (s : SubscriptionImpl μ E) : s.close.draining = s.draining := by
  unfold close
  split
  · rfl
  · split <;> rfl

theorem follows_close (s : SubscriptionImpl μ E) : s.Follows s.close :=
  ⟨ProtocolHandler.noIterator_close s, fun h => s.draining_close.trans h, .inr rfl⟩

/-- Whether a subscription has ended is a matter of its iterator. -/
theorem Ended.congr (hended : s.Ended) (hiter : s'.iter = s.iter) : s'.Ended := by
  rw [Ended, hiter]
  exact hended

theorem Follows.ended (hf : s.Follows s') (hended : s.Ended) : s'.Ended := by
  rcases hf.iter with hiter | hiter
  · exact hended.congr hiter
  · exact s.ended_close.congr hiter

/-- A close pushes its function, unless the subscription is done; that of a callback stops at
once. -/
theorem iter_close (s : SubscriptionImpl μ E) :
    s.close.iter = if s.noIterator then s.iter.stop none else s.iter.pushFn .closeFn := by
  unfold close isClosed
  cases hdone : s.iter.done with
  | true =>
      rw [if_pos rfl, QueuedIterator.stop, if_pos hdone, QueuedIterator.pushFn,
        if_pos hdone, ite_self]
  | false =>
      rw [if_neg Bool.false_ne_true]
      cases s.noIterator <;> rfl

theorem consumer_close (s : SubscriptionImpl μ E) : s.close.iter.consumer = s.iter.consumer := by
  rw [iter_close]
  split
  · exact QueuedIterator.consumer_stop _ _
  · exact QueuedIterator.consumer_pushFn _ _

theorem Follows.consumer (hf : s.Follows s') : s'.iter.consumer = s.iter.consumer := by
  rcases hf.iter with hiter | hiter
  · rw [hiter]
  · rw [hiter, consumer_close]

/-- The consumer moves the iterator on. -/
theorem next_eq (hnext : s.next = some s') :
    ∃ it closed, s.iter.next (fun _ => true) closeEffect = some it ∧
      s' = { s with iter := it, closed := closed } := by
  unfold SubscriptionImpl.next at hnext
  split at hnext
  · next it hit =>
    cases hnext
    exact ⟨it, _, hit, rfl⟩
  · cases hnext

theorem next_eq_none (hnext : s.next = none) : s.iter.next (fun _ => true) closeEffect = none := by
  unfold SubscriptionImpl.next at hnext
  split at hnext
  · cases hnext
  · assumption

/-- What an iterator was given first stays first. -/
theorem Follows.headed (hf : s.Follows s') {vs : List μ} (hkind : s.noIterator = false)
    (hhead : s.iter.Headed vs) : s'.iter.Headed vs := by
  rcases hf.iter with hiter | hiter
  · rw [hiter]
    exact hhead
  · rw [hiter, iter_close, hkind, if_neg Bool.false_ne_true]
    exact hhead.pushFn _

end SubscriptionImpl

namespace ProtocolHandler

variable {P : Nat → Prop} {h h' h'' : ProtocolHandler μ E} {s s' : SubscriptionImpl μ E} {o : Nat}

/-- One update; objects that were there are touched only where `P` allows it. -/
inductive Touch (P : Nat → Prop) : ProtocolHandler μ E → ProtocolHandler μ E → Prop
  | other {h h' : ProtocolHandler μ E} (objs : h'.objs = h.objs) (subs : h'.subs = h.subs)
      (counter : h'.sidCounter = h.sidCounter) (drains : ∀ x ∈ h'.drains, x ∈ h.drains) :
      Touch P h h'
  | change {h : ProtocolHandler μ E} {o : Nat} {s s' : SubscriptionImpl μ E} (within : P o)
      (found : h.objs[o]? = some s) (sid : s'.sid = s.sid) (follows : s.Follows s') :
      Touch P h (h.setObj o s')
  | leave {h : ProtocolHandler μ E} {o : Nat} {s s' : SubscriptionImpl μ E} (within : P o)
      (found : h.objs[o]? = some s) (sid : s'.sid = s.sid) (follows : s.Follows s')
      (ended : s'.Ended) :
      Touch P h { h.setObj o s' with subs := delete h.subs s.sid }
  | add {h : ProtocolHandler μ E} {s : SubscriptionImpl μ E} (sid : s.sid = h.sidCounter + 1)
      (iter : s.iter = .new) :
      Touch P h
        { h with
          objs := h.objs ++ [s]
          subs := h.subs ++ [(h.sidCounter + 1, h.objs.length)]
          sidCounter := h.sidCounter + 1 }
  | move {h : ProtocolHandler μ E} {o : Nat} {s s' : SubscriptionImpl μ E} (within : P o)
      (found : h.objs[o]? = some s) (sid : s'.sid = h.sidCounter + 1) (follows : s.Follows s')
      (iter : s'.iter = s.iter) :
      Touch P h
        { h.setObj o s' with
          subs := delete h.subs s.sid ++ [(h.sidCounter + 1, o)]
          sidCounter := h.sidCounter + 1 }
  | drain {h : ProtocolHandler μ E} {o : Nat} {s : SubscriptionImpl μ E} (within : P o)
      (found : h.objs[o]? = some s) (draining : s.draining = true) (l : Link) (d : Nat) :
      Touch P h { h with link := l, drains := h.drains ++ [(o, d)] }

/-- Updates in order. -/
abbrev Touches (P : Nat → Prop) : ProtocolHandler μ E → ProtocolHandler μ E → Prop :=
  Relation.ReflTransGen (Touch P)

/-! ### What the methods touch -/

theorem touches_other (hobjs : h'.objs = h.objs) (hsubs : h'.subs = h.subs)
    (hcounter : h'.sidCounter = h.sidCounter) (hdrains : ∀ x ∈ h'.drains, x ∈ h.drains) :
    Touches P h h' :=
  .single (.other hobjs hsubs hcounter hdrains)

theorem touches_link (h : ProtocolHandler μ E) (l : Link) : Touches P h { h with link := l } :=
  touches_other rfl rfl rfl fun _ hx => hx

theorem touches_sendCommand (h : ProtocolHandler μ E) (c : Command) :
    Touches P h (h.sendCommand c) :=
  touches_link h _

theorem touches_setObj (ho : P o) (hs : h.objs[o]? = some s) (hsid : s'.sid = s.sid)
    (hf : s.Follows s') : Touches P h (h.setObj o s') :=
  .single (.change ho hs hsid hf)

theorem touches_cancel (ho : P o) (hs : h.objs[o]? = some s) : Touches P h (h.cancel o s) :=
  .single (.leave ho hs (sid_close s) s.follows_close s.ended_close)

theorem follows_unsub (s : SubscriptionImpl μ E) (max : Option Nat) (closed : Bool) :
    s.Follows (s.unsub max closed) := by
  cases closed <;> exact SubscriptionImpl.follows_of_iter rfl rfl rfl

theorem touches_unsub (ho : P o) (hs : h.objs[o]? = some s) (max : Option Nat) :
    Touches P h (h.unsub o s max) := by
  rw [unsub]
  split
  · exact .refl
  · have hsent := touches_sendCommand (P := P) h (.unsub s.sid (SubscriptionImpl.limitOf max))
    exact hsent.trans (touches_setObj ho hs (sid_unsub s max false) (follows_unsub s max false))

theorem touches_unsubscribe (ho : P o) (h : ProtocolHandler μ E) (max : Option Nat) :
    Touches P h (h.unsubscribe o max) := by
  rw [unsubscribe]
  split
  · exact .refl
  · next s hs =>
    have hunsub : Touches P h (h.unsub o s max) := touches_unsub ho hs max
    simp only
    split
    · exact hunsub.trans (touches_cancel ho (unsub_getElem? hs max))
    · exact hunsub

theorem touches_subscribe (hnew : P h.objs.length) (opts : SubscriptionOptions) :
    Touches P h (h.subscribe opts) := by
  have hadd : ∀ s : SubscriptionImpl μ E, s.sid = h.sidCounter + 1 → s.iter = .new →
      Touches P h (({ h with
        sidCounter := h.sidCounter + 1
        objs := h.objs ++ [s]
        subs := h.subs ++ [(h.sidCounter + 1, h.objs.length)] } : ProtocolHandler μ E).sendCommand
          s.subCommand) := by
    intro s hsid hiter
    exact Relation.ReflTransGen.trans (.single (.add hsid hiter)) (touches_sendCommand _ _)
  rw [subscribe]
  split
  · exact (hadd _ rfl rfl).trans (touches_unsubscribe hnew _ _)
  · exact hadd _ rfl rfl

theorem touches_resub (ho : P o) (h : ProtocolHandler μ E) (subject : String) :
    Touches P h (h.resub o subject) := by
  rw [resub]
  split
  · exact .refl
  · next s hs =>
    split
    · exact .refl
    · next hopen =>
      have hclosed : h.link.closed = false := Bool.eq_false_iff.2 hopen
      refine (touches_sendCommand h (.unsub s.sid none)).trans ?_
      refine Relation.ReflTransGen.trans ?_ (touches_sendCommand _ _)
      rw [unsub, hclosed, if_neg Bool.false_ne_true, setObj, setObj, List.set_set]
      exact .single (.move (h := h.sendCommand (.unsub s.sid none)) ho hs rfl
        (SubscriptionImpl.follows_of_iter rfl rfl rfl) rfl)

/-- A subscription that drains already is not touched. -/
theorem touches_drainSub (ho : P o ∨ ∃ s, h.objs[o]? = some s ∧ s.draining = true) :
    Touches P h (h.drainSub o) := by
  rw [drainSub]
  split
  · exact .refl
  · next s hs =>
    split
    · exact .refl
    · next hgo =>
      have hfirst : P o := by
        refine ho.resolve_right ?_
        rintro ⟨x, hx, hdraining⟩
        rw [hs, Option.some.injEq] at hx
        subst hx
        exact hgo (by rw [hdraining, Bool.or_true])
      have hset : Touches P h (h.setObj o { s with draining := true }) :=
        touches_setObj hfirst hs rfl ⟨rfl, fun _ => rfl, .inl rfl⟩
      have hunsub := hset.trans (touches_unsub hfirst (setObj_self hs) none)
      refine hunsub.trans (.single (.drain hfirst (unsub_getElem? (setObj_self hs) none) ?_ _ _))
      cases (h.setObj o { s with draining := true }).link.closed <;> rfl

theorem touches_drained (ho : P o) (h : ProtocolHandler μ E) (d : Nat) :
    Touches P h (h.drained o d) := by
  rw [drained]
  split
  · exact .refl
  · next s hs =>
    exact (touches_cancel ho hs).trans
      (touches_other rfl rfl rfl fun _ hx => List.mem_of_mem_erase hx)

theorem touches_closeSubscriptions (hall : ∀ i, P i) (h : ProtocolHandler μ E) :
    Touches P h h.closeSubscriptions := by
  apply h.closeSubscriptions_induction (P := Touches P h) .refl
  intro h' o s hs ht
  exact ht.trans (touches_setObj (hall o) hs (sid_close s) s.follows_close)

/-- Only a close touches all subscriptions. -/
theorem touches_setLink {l : Link} (hall : l.closed = true → ∀ i, P i) (h : ProtocolHandler μ E) :
    Touches P h (h.setLink l) := by
  rw [setLink]
  split
  · next hclosing =>
    have hclosed : l.closed = true := (Bool.and_eq_true_iff.1 hclosing).1
    exact (touches_closeSubscriptions (hall hclosed) h).trans (touches_link _ l)
  · exact touches_link h l

/-! ### What the other objects keep -/

/-- The objects that may not be touched drain, and have no limit. -/
def Guards (h : ProtocolHandler μ E) (P : Nat → Prop) : Prop :=
  ∀ i, ¬ P i → ∃ s, h.objs[i]? = some s ∧ s.draining = true ∧ s.max = none

theorem Guards.within (hg : h.Guards P) {i : Nat} (hnone : h.objs[i]? = none) : P i := by
  by_contra hnot
  obtain ⟨s, hs, -⟩ := hg i hnot
  rw [hnone] at hs
  cases hs

theorem Touch.untouched (ht : Touch P h h') {i : Nat} (hi : ¬ P i) (hs : h.objs[i]? = some s) :
    h'.objs[i]? = some s := by
  cases ht with
  | other objs subs counter drains =>
      rw [objs]
      exact hs
  | change within found sid follows =>
      rename_i o _ _
      have hne : i ≠ o := by
        rintro rfl
        exact hi within
      exact (setObj_ne hne).trans hs
  | leave within found sid follows ended =>
      rename_i o _ _
      have hne : i ≠ o := by
        rintro rfl
        exact hi within
      exact (setObj_ne hne).trans hs
  | add sid iter => exact (List.getElem?_append_left (List.getElem?_eq_some_iff.1 hs).1).trans hs
  | move within found sid follows iter =>
      rename_i o _ _
      have hne : i ≠ o := by
        rintro rfl
        exact hi within
      exact (setObj_ne hne).trans hs
  | drain within found draining l d => exact hs

/-- **What may not be touched stays.** -/
theorem Touches.untouched (ht : Touches P h h') {i : Nat} (hi : ¬ P i) (hs : h.objs[i]? = some s) :
    h'.objs[i]? = some s := by
  induction ht with
  | refl => exact hs
  | tail _ ht ih => exact ht.untouched hi ih

theorem Touches.guards (ht : Touches P h h') (hg : h.Guards P) : h'.Guards P := by
  intro i hi
  obtain ⟨s, hs, hkept⟩ := hg i hi
  exact ⟨s, ht.untouched hi hs, hkept⟩

/-! ### What every update keeps -/

/-- A subscription that was there goes on. -/
theorem Touch.found (ht : Touch P h h') {i : Nat} (hs : h.objs[i]? = some s) :
    ∃ s', h'.objs[i]? = some s' ∧ s.Follows s' := by
  have hsame : s.Follows s := SubscriptionImpl.follows_of_iter rfl rfl rfl
  have hset : ∀ {o : Nat} {x x' : SubscriptionImpl μ E}, h.objs[o]? = some x → x.Follows x' →
      ∃ s', (h.setObj o x').objs[i]? = some s' ∧ s.Follows s' := by
    intro o x x' hx hf
    by_cases hi : i = o
    · subst hi
      rw [hs, Option.some.injEq] at hx
      subst hx
      exact ⟨x', setObj_self hs, hf⟩
    · exact ⟨s, (setObj_ne hi).trans hs, hsame⟩
  cases ht with
  | other objs subs counter drains => exact ⟨s, by rw [objs]; exact hs, hsame⟩
  | change within found sid follows => exact hset found follows
  | leave within found sid follows ended => exact hset found follows
  | add sid iter =>
      exact ⟨s, (List.getElem?_append_left (List.getElem?_eq_some_iff.1 hs).1).trans hs, hsame⟩
  | move within found sid follows iter => exact hset found follows
  | drain within found draining l d => exact ⟨s, hs, hsame⟩

/-- A subscription was there, or its iterator is new. -/
theorem Touch.objs (ht : Touch P h h') {i : Nat} (hs : h'.objs[i]? = some s') :
    (∃ s, h.objs[i]? = some s ∧ s.Follows s') ∨ s'.iter = .new := by
  cases hold : h.objs[i]? with
  | some s =>
      obtain ⟨x, hx, hf⟩ := ht.found hold
      rw [hs, Option.some.injEq] at hx
      subst hx
      exact .inl ⟨s, rfl, hf⟩
  | none =>
      have hset : ∀ {o : Nat} {x x' : SubscriptionImpl μ E}, h.objs[o]? = some x →
          (h.setObj o x').objs[i]? = some s' → s'.iter = .new := by
        intro o x x' hx hget
        have hne : i ≠ o := by
          rintro rfl
          rw [hold] at hx
          cases hx
        rw [setObj_ne hne, hold] at hget
        cases hget
      right
      cases ht with
      | other objs subs counter drains =>
          rw [objs, hold] at hs
          cases hs
      | change within found sid follows => exact hset found hs
      | leave within found sid follows ended => exact hset found hs
      | add sid iter =>
          have hmem :=
            List.mem_of_getElem?
              ((List.getElem?_append_right (List.getElem?_eq_none_iff.1 hold)).symm.trans hs)
          rw [List.mem_singleton.1 hmem]
          exact iter
      | move within found sid follows iter => exact hset found hs
      | drain within found draining l d =>
          rw [show h.objs[i]? = some s' from hs] at hold
          cases hold

theorem Touch.counter (ht : Touch P h h') : h.sidCounter ≤ h'.sidCounter := by
  cases ht with
  | other objs subs counter drains => exact Nat.le_of_eq counter.symm
  | change | leave | drain => exact Nat.le_refl _
  | add | move => exact Nat.le_succ _

theorem Touches.counter (ht : Touches P h h') : h.sidCounter ≤ h'.sidCounter := by
  induction ht with
  | refl => exact Nat.le_refl _
  | tail _ ht ih => exact Nat.le_trans ih ht.counter

theorem Touch.numbered (ht : Touch P h h') (hn : h.Numbered) : h'.Numbered := by
  refine hn.of_map_sid ht.counter ?_
  cases ht with
  | other objs subs counter drains => exact .inl (by rw [objs])
  | change within found sid follows => exact .inl (map_sid_setObj found sid)
  | leave within found sid follows ended => exact .inl (map_sid_setObj found sid)
  | drain within found draining l d => exact .inl rfl
  | add sid iter =>
      refine .inr ⟨Nat.le_refl _, .inl ?_⟩
      show (h.objs ++ [_]).map _ = _
      rw [List.map_append, List.map_singleton, sid]
  | move within found sid follows iter =>
      rename_i o s s'
      refine .inr ⟨Nat.le_refl _, .inr ⟨o, ?_⟩⟩
      show (h.objs.set _ _).map _ = _
      rw [List.map_set, sid]

/-- What may not be touched stays in the table: nobody else has its sid. -/
theorem Touch.mem (ht : Touch P h h') (hn : h.Numbered) {i : Nat} (hi : ¬ P i)
    (hs : h.objs[i]? = some s) (hmem : (s.sid, i) ∈ h.subs) : (s.sid, i) ∈ h'.subs := by
  have hkept : ∀ {o : Nat} {x : SubscriptionImpl μ E}, P o → h.objs[o]? = some x →
      (s.sid, i) ∈ delete h.subs x.sid := by
    intro o x ho hx
    refine mem_delete.2 ⟨hmem, fun heq => hi ?_⟩
    rw [hn.eq_of_sid hs hx heq]
    exact ho
  cases ht with
  | other objs subs counter drains => exact subs ▸ hmem
  | change | drain => exact hmem
  | leave within found sid follows ended => exact hkept within found
  | add sid iter => exact List.mem_append_left _ hmem
  | move within found sid follows iter => exact List.mem_append_left _ (hkept within found)

theorem Touches.mem (ht : Touches P h h') (hn : h.Numbered) {i : Nat} (hi : ¬ P i)
    (hs : h.objs[i]? = some s) (hmem : (s.sid, i) ∈ h.subs) : (s.sid, i) ∈ h'.subs := by
  have hboth : h'.Numbered ∧ (s.sid, i) ∈ h'.subs := by
    induction ht with
    | refl => exact ⟨hn, hmem⟩
    | tail hts ht ih => exact ⟨ht.numbered ih.1, ht.mem ih.1 hi (Touches.untouched hts hi hs) ih.2⟩
  exact hboth.2

/-- What may not be touched does not begin to drain. -/
theorem Touches.mem_drains (ht : Touches P h h') {x : Nat × Nat} (hx : ¬ P x.1)
    (hmem : x ∈ h'.drains) : x ∈ h.drains := by
  induction ht with
  | refl => exact hmem
  | tail _ ht ih =>
      apply ih
      cases ht with
      | other objs subs counter drains => exact drains x hmem
      | change | leave | add | move => exact hmem
      | drain within found draining l d =>
          rcases List.mem_append.1 hmem with hmem | hmem
          · exact hmem
          · rw [List.mem_singleton.1 hmem] at hx
            exact absurd within hx

/-- Who waits for a drain drains. -/
def Draining (h : ProtocolHandler μ E) : Prop :=
  ∀ x ∈ h.drains, ∃ s, h.objs[x.1]? = some s ∧ s.draining = true

theorem Touch.draining (ht : Touch P h h') (hd : h.Draining) : h'.Draining := by
  have hold : ∀ x ∈ h.drains, ∃ s, h'.objs[x.1]? = some s ∧ s.draining = true := by
    intro x hx
    obtain ⟨s, hs, hdraining⟩ := hd x hx
    obtain ⟨s', hs', hf⟩ := ht.found hs
    exact ⟨s', hs', hf.draining hdraining⟩
  intro x hx
  cases ht with
  | other objs subs counter drains => exact hold x (drains x hx)
  | change | leave | add | move => exact hold x hx
  | drain within found draining l d =>
      rcases List.mem_append.1 hx with hx | hx
      · exact hold x hx
      · rw [List.mem_singleton.1 hx]
        exact ⟨_, found, draining⟩

/-- No generator is in the middle of a step. -/
def Parked (h : ProtocolHandler μ E) : Prop :=
  ∀ (o : Nat) (s : SubscriptionImpl μ E), h.objs[o]? = some s → s.iter.consumer.isRunning = false

theorem Touch.parked (ht : Touch P h h') (hp : h.Parked) : h'.Parked := by
  intro o s' hs'
  rcases ht.objs hs' with ⟨s, hs, hf⟩ | hnew
  · rw [hf.consumer]
    exact hp o s hs
  · rw [hnew]
    rfl

/-- What an iterator was given first stays first. -/
theorem Touches.headed {vs : List μ} (ht : Touches P h h') (hs : h.objs[o]? = some s)
    (hkind : s.noIterator = false) (hhead : s.iter.Headed vs) :
    ∃ s', h'.objs[o]? = some s' ∧ s'.noIterator = false ∧ s'.iter.Headed vs := by
  induction ht with
  | refl => exact ⟨s, hs, hkind, hhead⟩
  | tail _ ht ih =>
      obtain ⟨x, hx, hkind, hhead⟩ := ih
      obtain ⟨x', hx', hf⟩ := ht.found hx
      exact ⟨x', hx', hf.kind.trans hkind, hf.headed hkind hhead⟩

/-! ### Subscriptions that have not ended -/

end ProtocolHandler

/-- Nothing has stopped the iterator: it was given values only, those of the log at the end. A
callback is given none. -/
def SubscriptionImpl.Gathers (s : SubscriptionImpl μ E) (log : List μ) : Prop :=
  ∃ vs, s.iter.Fed closeEffect vs [] ∧ (s.noIterator = false → log <:+ vs)

namespace SubscriptionImpl

variable {s s' : SubscriptionImpl μ E} {log : List μ}

theorem Gathers.not_ended (hg : s.Gathers log) : ¬ s.Ended := by
  obtain ⟨vs, hfed, -⟩ := hg
  rintro (hdone | hleft)
  · rw [hfed.done_eq_false] at hdone
    cases hdone
  · exact hfed.not_mem_left _ hleft

theorem Gathers.next (hg : s.Gathers log) (hnext : s.next = some s') : s'.Gathers log := by
  obtain ⟨vs, hfed, hvs⟩ := hg
  obtain ⟨it, closed, hit, rfl⟩ := next_eq hnext
  exact ⟨vs, hfed.next hit, hvs⟩

end SubscriptionImpl

namespace ProtocolHandler

variable {P : Nat → Prop} {h h' h'' : ProtocolHandler μ E} {s s' : SubscriptionImpl μ E} {o : Nat}
  {log : Nat → List μ}

/-- A subscription has ended, or it is in the table and has gathered the messages of the log. -/
def Feeds (h : ProtocolHandler μ E) (log : Nat → List μ) : Prop :=
  ∀ (o : Nat) (s : SubscriptionImpl μ E), h.objs[o]? = some s →
    s.Ended ∨ (s.sid, o) ∈ h.subs ∧ s.Gathers (log s.sid)

theorem Touch.feeds (ht : Touch P h h') (hn : h.Numbered)
    (hlog : ∀ sid, h.sidCounter < sid → log sid = []) (hf : h.Feeds log) : h'.Feeds log := by
  -- the entries of the others stay
  have hkept : ∀ {o i : Nat} {s x : SubscriptionImpl μ E}, h.objs[o]? = some s → i ≠ o →
      h.objs[i]? = some x → (x.sid, i) ∈ h.subs → (x.sid, i) ∈ delete h.subs s.sid := by
    intro o i s x hs hne hx hmem
    exact mem_delete.2 ⟨hmem, fun heq => hne (hn.eq_of_sid hx hs heq)⟩
  intro i x hx
  cases ht with
  | other objs subs counter drains =>
      rw [objs] at hx
      rw [subs]
      exact hf i x hx
  | drain within found draining l d => exact hf i x hx
  | change within found sid follows =>
      rename_i o s s'
      rcases setObj_cases found hx with ⟨rfl, rfl⟩ | ⟨-, hx⟩
      · rcases hf i s found with hended | ⟨hmem, vs, hfed, hvs⟩
        · exact .inl (follows.ended hended)
        · rcases follows.iter with hiter | hiter
          · refine .inr ⟨sid ▸ hmem, vs, hiter ▸ hfed, fun hkind => ?_⟩
            rw [sid]
            exact hvs (follows.kind.symm.trans hkind)
          · exact .inl (s.ended_close.congr hiter)
      · exact hf i x hx
  | leave within found sid follows ended =>
      rcases setObj_cases found hx with ⟨rfl, rfl⟩ | ⟨hne, hx⟩
      · exact .inl ended
      · exact (hf i x hx).imp_right fun ⟨hmem, hgathers⟩ => ⟨hkept found hne hx hmem, hgathers⟩
  | add sid iter =>
      rename_i s
      rcases Nat.lt_or_ge i h.objs.length with hlt | hge
      · have hold : h.objs[i]? = some x := (List.getElem?_append_left hlt).symm.trans hx
        exact (hf i x hold).imp_right fun ⟨hmem, hgathers⟩ =>
          ⟨List.mem_append_left _ hmem, hgathers⟩
      · have hnew : ([s] : List (SubscriptionImpl μ E))[i - h.objs.length]? = some x :=
          (List.getElem?_append_right hge).symm.trans hx
        obtain rfl : x = s := List.mem_singleton.1 (List.mem_of_getElem? hnew)
        have hone : i - h.objs.length < 1 := (List.getElem?_eq_some_iff.1 hnew).1
        have hzero : i = h.objs.length := by omega
        rw [sid, hzero]
        refine .inr ⟨List.mem_append_right _ (List.mem_singleton_self _), [], ?_, fun _ => ?_⟩
        · rw [iter]
          exact QueuedIterator.fed_new
        · simp only [hlog _ (Nat.lt_succ_self _), List.nil_suffix]
  | move within found sid follows iter =>
      rename_i o s s'
      rcases setObj_cases found hx with ⟨rfl, rfl⟩ | ⟨hne, hx⟩
      · rcases hf i s found with hended | ⟨-, vs, hfed, -⟩
        · exact .inl (hended.congr iter)
        · rw [sid]
          refine .inr ⟨List.mem_append_right _ (List.mem_singleton_self _), vs, iter ▸ hfed,
            fun _ => ?_⟩
          simp only [hlog _ (Nat.lt_succ_self _), List.nil_suffix]
      · exact (hf i x hx).imp_right fun ⟨hmem, hgathers⟩ =>
          ⟨List.mem_append_left _ (hkept found hne hx hmem), hgathers⟩

/-- What holds of the handler and its log at any time. -/
structure Tidy (h : ProtocolHandler μ E) (log : Nat → List μ) : Prop where
  numbered : h.Numbered
  draining : h.Draining
  parked : h.Parked
  feeds : h.Feeds log

/-- **Calls keep it**, as long as nothing is logged for sids that are not used yet. -/
theorem Touches.tidy (ht : Touches P h h') (hlog : ∀ sid, h.sidCounter < sid → log sid = [])
    (hi : h.Tidy log) : h'.Tidy log := by
  induction ht with
  | refl => exact hi
  | tail hts ht ih =>
      have hlater : ∀ sid, _ < sid → log sid = [] :=
        fun sid hlt => hlog sid (Nat.lt_of_le_of_lt (Touches.counter hts) hlt)
      exact ⟨ht.numbered ih.numbered, ht.draining ih.draining, ht.parked ih.parked,
        ht.feeds ih.numbered hlater ih.feeds⟩

/-! ### Calls and messages -/

end ProtocolHandler

/-- The call does not take a subscription that may not be touched out of the table. -/
def Call.Within (P : Nat → Prop) : Call → Prop
  | .unsubscribe o _ | .resub o _ => P o
  | .subscribe _ | .drain _ | .publish _ _ | .flush | .reconnect | .close => True

theorem Call.within_true (c : Call) : c.Within fun _ => True := by
  cases c <;> trivial

namespace ProtocolHandler

variable {P : Nat → Prop} {h h' h'' : ProtocolHandler μ E} {s s' : SubscriptionImpl μ E} {o : Nat}

theorem guards_true (h : ProtocolHandler μ E) : h.Guards fun _ => True :=
  fun _ hi => absurd trivial hi

/-- **A call.** -/
theorem touches_call (hg : h.Guards P) {c : Call} (hc : c.Within P)
    (hall : (h.call c).link.closed = true → ∀ i, P i) : Touches P h (h.call c) := by
  cases c with
  | subscribe opts =>
      exact touches_subscribe (hg.within (List.getElem?_eq_none (Nat.le_refl _))) opts
  | unsubscribe o max => exact touches_unsubscribe hc h max
  | drain o =>
      refine touches_drainSub ?_
      by_cases ho : P o
      · exact .inl ho
      · obtain ⟨s, hs, hdraining, -⟩ := hg o ho
        exact .inr ⟨s, hs, hdraining⟩
  | resub o subject => exact touches_resub hc h subject
  | publish proto payload => exact touches_sendCommand h _
  | flush => exact touches_link h _
  | reconnect =>
      rw [call]
      split
      · exact touches_link h _
      · exact .refl
  | close =>
      refine touches_setLink (fun hclosed => hall ?_) h
      rw [call, setLink]
      split <;> exact hclosed

theorem Moves.closed {Q : Link.Event → Prop} (hm : Moves Q h h') (hclosed : h.link.closed = true) :
    h'.link.closed = true :=
  hm.link.closed hclosed

theorem touches_calls (hg : h.Guards P) {cs : List Call} (hcs : ∀ c ∈ cs, c.Within P)
    (hall : (h.calls cs).link.closed = true → ∀ i, P i) : Touches P h (h.calls cs) := by
  induction cs generalizing h with
  | nil => exact .refl
  | cons c cs ih =>
      have hlater : (h.call c).Moves (fun _ => False) ((h.call c).calls cs) := moves_calls _ cs
      have hcall : Touches P h (h.call c) :=
        touches_call hg (hcs c List.mem_cons_self) fun hclosed => hall (hlater.closed hclosed)
      exact hcall.trans
        (ih (hcall.guards hg) (fun c' hmem => hcs c' (List.mem_cons_of_mem c hmem)) hall)

/-- A limit that is reached touches its subscription; what may not be touched has none. -/
theorem touches_checkMax (hg : h.Guards P) (o : Nat) : Touches P h (h.checkMax o) := by
  rw [checkMax]
  split
  · exact .refl
  · next s hs =>
    split
    · next hreached =>
      refine touches_unsubscribe ?_ h none
      by_contra ho
      obtain ⟨x, hx, -, hmax⟩ := hg o ho
      rw [hs, Option.some.injEq] at hx
      subst hx
      rw [SubscriptionImpl.reachedMax, hmax] at hreached
      cases hreached
    · exact .refl

end ProtocolHandler

/-- What a message does to the subscription that it is dispatched to. -/
def SubscriptionImpl.gets (s : SubscriptionImpl μ E) (v : μ) : SubscriptionImpl μ E :=
  if s.noIterator then s.receive else s.receive.push v

namespace SubscriptionImpl

variable {s : SubscriptionImpl μ E} {v : μ} {log : List μ}

/-- A callback is called by the handler; an iterator gets the message. -/
theorem iter_gets (s : SubscriptionImpl μ E) (v : μ) :
    (s.gets v).iter = if s.noIterator then { s.iter with received := s.iter.received + 1 }
      else { s.iter with received := s.iter.received + 1 }.push v ⟨true, false⟩ := by
  unfold gets
  split <;> rfl

theorem sid_gets (s : SubscriptionImpl μ E) (v : μ) : (s.gets v).sid = s.sid := by
  unfold gets
  split <;> rfl

theorem draining_gets (s : SubscriptionImpl μ E) (v : μ) : (s.gets v).draining = s.draining := by
  unfold gets
  split <;> rfl

theorem max_gets (s : SubscriptionImpl μ E) (v : μ) : (s.gets v).max = s.max := by
  unfold gets
  split <;> rfl

theorem kind_gets (s : SubscriptionImpl μ E) (v : μ) : (s.gets v).noIterator = s.noIterator := by
  unfold gets
  split <;> rfl

theorem consumer_gets (s : SubscriptionImpl μ E) (v : μ) :
    (s.gets v).iter.consumer = s.iter.consumer := by
  rw [iter_gets]
  split
  · rfl
  · exact QueuedIterator.consumer_push _ _ _

theorem ended_gets (hended : s.Ended) (v : μ) : (s.gets v).Ended := by
  have hreceive : s.receive.Ended := hended
  unfold gets
  split
  · exact hreceive
  · exact hreceive.push v

/-- The message is the last one that was gathered. -/
theorem Gathers.gets (hg : s.Gathers log) (v : μ) : (s.gets v).Gathers (log ++ [v]) := by
  obtain ⟨vs, hfed, hvs⟩ := hg
  have hreceived := hfed.received (s.iter.received + 1)
  rw [Gathers, iter_gets, kind_gets]
  cases hkind : s.noIterator with
  | true =>
      rw [if_pos rfl]
      exact ⟨vs, hreceived, fun h => by cases h⟩
  | false =>
      rw [if_neg Bool.false_ne_true]
      obtain ⟨front, rfl⟩ := hvs hkind
      exact ⟨_, hreceived.push v, fun _ => ⟨front, (List.append_assoc front log [v]).symm⟩⟩

theorem headed_gets {vs : List μ} (hhead : s.iter.Headed vs) (v : μ) :
    (s.gets v).iter.Headed vs := by
  have hreceived := hhead.received (s.iter.received + 1)
  rw [iter_gets]
  split
  · exact hreceived
  · exact hreceived.push v

end SubscriptionImpl

namespace ProtocolHandler

variable {P : Nat → Prop} {h h' h'' : ProtocolHandler μ E} {s s' : SubscriptionImpl μ E} {o : Nat}

/-- **A message** goes to one subscription; the calls of its callback come behind. -/
theorem touches_processMsg {sid : Nat} {v : μ} {cs : List Call} (hget : h.get sid = some o)
    (hs : h.objs[o]? = some s) (hg : (h.setObj o (s.gets v)).Guards P) (hcs : ∀ c ∈ cs, c.Within P)
    (hall : (h.processMsg sid v cs).link.closed = true → ∀ i, P i) :
    Touches P (h.setObj o (s.gets v)) (h.processMsg sid v cs) := by
  simp only [processMsg, hget, hs] at hall ⊢
  rw [dispatch] at hall ⊢
  cases hkind : s.receive.noIterator with
  | false =>
      have hgets : s.gets v = s.receive.push v :=
        if_neg (by rw [show s.noIterator = false from hkind]; decide)
      have hset : (h.setObj o s.receive).setObj o (s.receive.push v) = h.setObj o (s.gets v) := by
        rw [hgets, setObj, setObj, setObj, List.set_set]
      rw [if_neg Bool.false_ne_true, hset]
      exact touches_checkMax hg o
  | true =>
      have hgets : s.gets v = s.receive := if_pos hkind
      rw [hkind, if_pos rfl] at hall
      rw [if_pos rfl]
      rw [hgets] at hg ⊢
      have hcalls : Touches P (h.setObj o s.receive) ((h.setObj o s.receive).calls cs) := by
        refine touches_calls hg hcs fun hclosed => hall ?_
        have hlater : ((h.setObj o s.receive).calls cs).Moves (fun _ => False)
            (((h.setObj o s.receive).calls cs).checkMax o) := moves_checkMax _ o
        exact hlater.closed hclosed
      exact hcalls.trans (touches_checkMax (hcalls.guards hg) o)

/-- A timer stops one subscription; the calls of its callback come behind. -/
theorem touches_timeout {err : E} {cs : List Call}
    (hg : (h.setObj o { s.stop (some err) with timer := false }).Guards P)
    (hcs : ∀ c ∈ cs, c.Within P) (hall : (h.timeout o s err cs).link.closed = true → ∀ i, P i) :
    Touches P (h.setObj o { s.stop (some err) with timer := false }) (h.timeout o s err cs) := by
  rw [timeout] at hall ⊢
  split
  · next hkind =>
    rw [if_pos hkind] at hall
    exact touches_calls hg hcs hall
  · exact .refl

/-! ### Events -/

/-- What an event does to its subscription by itself. -/
inductive Turns (o : Nat) (s : SubscriptionImpl μ E) : Event μ E → SubscriptionImpl μ E → Prop
  | next {s' : SubscriptionImpl μ E} (next : s.next = some s') : Turns o s (.next o) s'
  | stop (err : Option E) : Turns o s (.stop o err) (s.stop err)
  | leave : Turns o s (.leave o) s.leave
  | timeout (err : E) (cs : List Call) :
      Turns o s (.timeout o err cs) { s.stop (some err) with timer := false }

/-- **An event** that is not a frame turns one subscription, or none, and the rest are calls. -/
theorem touches_step {e : Event μ E} (hg : h.Guards P) (hframe : ¬ Session.isFrame e = true)
    (hcalls : ∀ c ∈ e.calls, c.Within P) (hdrained : ∀ o d, e = .drained o d → P o)
    (hall : h'.link.closed = true → ∀ i, P i)
    (hstep : h.step e = some h') :
    Touches P h h' ∨ ∃ o s s', h.objs[o]? = some s ∧ Turns o s e s' ∧
      Touches P (h.setObj o s') h' := by
  cases step_of_eq hstep with
  | call c => exact .inl (touches_call hg (hcalls c List.mem_cons_self) hall)
  | drained o d => exact .inl (touches_drained (hdrained o d rfl) h d)
  | message sid v cs => exact absurd rfl hframe
  | timeout o s err cs hs =>
      have hguards : (h.setObj o { s.stop (some err) with timer := false }).Guards P := by
        intro i hi
        obtain ⟨x, hx, hkept⟩ := hg i hi
        by_cases hio : i = o
        · subst hio
          rw [hs, Option.some.injEq] at hx
          subst hx
          exact ⟨_, setObj_self hs, hkept⟩
        · exact ⟨x, (setObj_ne hio).trans hx, hkept⟩
      exact .inr ⟨o, s, _, hs, .timeout err cs, touches_timeout hguards hcalls hall⟩
  | next o s s' hs hnext => exact .inr ⟨o, s, s', hs, .next hnext, .refl⟩
  | stop o s err hs => exact .inr ⟨o, s, _, hs, .stop err, .refl⟩
  | leave o s hs => exact .inr ⟨o, s, _, hs, .leave, .refl⟩
  | dialDone l => exact .inl (touches_link h l)
  | link e l =>
      refine .inl (touches_setLink (fun hclosed => hall ?_) h)
      rw [link_setLink]
      exact hclosed

/-- A turn is about the iterator. -/
theorem Turns.registration {e : Event μ E} (ht : Turns o s e s') :
    s'.registration = s.registration := by
  cases ht with
  | next next => exact SubscriptionImpl.registration_next next
  | stop err => exact SubscriptionImpl.registration_stop s err
  | leave => exact SubscriptionImpl.registration_leave s
  | timeout err cs => exact SubscriptionImpl.registration_stop s (some err)

theorem Turns.kind {e : Event μ E} (ht : Turns o s e s') : s'.noIterator = s.noIterator := by
  cases ht with
  | next next => exact noIterator_next next
  | stop | leave | timeout => rfl

theorem Turns.parked {e : Event μ E} (ht : Turns o s e s')
    (hp : s.iter.consumer.isRunning = false) : s'.iter.consumer.isRunning = false := by
  cases ht with
  | next next =>
      obtain ⟨it, closed, hit, rfl⟩ := SubscriptionImpl.next_eq next
      exact QueuedIterator.isRunning_next hit
  | stop err =>
      show (s.iter.stop err).consumer.isRunning = false
      rw [QueuedIterator.consumer_stop]
      exact hp
  | leave => rfl
  | timeout err cs =>
      show (s.iter.stop (some err)).consumer.isRunning = false
      rw [QueuedIterator.consumer_stop]
      exact hp

/-- A subscription that is stopped has ended. -/
theorem Turns.ended {e : Event μ E} (ht : Turns o s e s') (hended : s.Ended) : s'.Ended := by
  cases ht with
  | next next => exact hended.next next
  | stop err => exact SubscriptionImpl.ended_stop s err
  | leave => exact .inl (SubscriptionImpl.ended_finish s.iter none)
  | timeout err cs => exact (SubscriptionImpl.ended_stop s (some err)).congr rfl

/-! ### What all events keep -/

variable {log log' : Nat → List μ}

/-- One subscription changes, and what is logged for its sid. -/
theorem Tidy.setObj (hi : h.Tidy log) (hs : h.objs[o]? = some s) (hsid : s'.sid = s.sid)
    (hdraining : s'.draining = s.draining)
    (hparked : s.iter.consumer.isRunning = false → s'.iter.consumer.isRunning = false)
    (hended : s.Ended → s'.Ended)
    (hgathers : s.Gathers (log s.sid) → s'.Ended ∨ s'.Gathers (log' s.sid))
    (hother : ∀ sid, sid ≠ s.sid → log' sid = log sid) : (h.setObj o s').Tidy log' := by
  refine ⟨hi.numbered.setObj hs hsid, fun x hx => ?_, fun i x hx => ?_, fun i x hx => ?_⟩
  · obtain ⟨y, hy, hydraining⟩ := hi.draining x hx
    by_cases hxo : x.1 = o
    · rw [hxo] at hy ⊢
      rw [hs, Option.some.injEq] at hy
      subst hy
      exact ⟨s', setObj_self hs, hdraining.trans hydraining⟩
    · exact ⟨y, (setObj_ne hxo).trans hy, hydraining⟩
  · rcases setObj_cases hs hx with ⟨rfl, rfl⟩ | ⟨-, hx⟩
    · exact hparked (hi.parked i s hs)
    · exact hi.parked i x hx
  · rcases setObj_cases hs hx with ⟨rfl, rfl⟩ | ⟨hne, hx⟩
    · rw [hsid]
      rcases hi.feeds i s hs with h | ⟨hmem, h⟩
      · exact .inl (hended h)
      · exact (hgathers h).imp_right fun h => ⟨hmem, h⟩
    · rw [hother _ fun heq => hne (hi.numbered.eq_of_sid hx hs heq)]
      exact hi.feeds i x hx

/-- A turn is not logged. -/
theorem Tidy.turns {e : Event μ E} (hi : h.Tidy log) (hs : h.objs[o]? = some s)
    (ht : Turns o s e s') : (h.setObj o s').Tidy log := by
  refine hi.setObj hs (congrArg Prod.fst ht.registration) (congrArg (·.2.2.2.1) ht.registration)
    ht.parked ht.ended (fun hgathers => ?_) fun _ _ => rfl
  cases ht with
  | next next => exact .inr (hgathers.next next)
  | stop err => exact .inl (SubscriptionImpl.ended_stop s err)
  | leave => exact .inl (.inl (SubscriptionImpl.ended_finish s.iter none))
  | timeout err cs => exact .inl ((SubscriptionImpl.ended_stop s (some err)).congr rfl)

/-- **Every event** that is not a frame, as long as nothing is logged for sids that are not used
yet. -/
theorem Tidy.step {e : Event μ E} (hi : h.Tidy log)
    (hlog : ∀ sid, h.sidCounter < sid → log sid = []) (hframe : ¬ Session.isFrame e = true)
    (hstep : h.step e = some h') : h'.Tidy log := by
  rcases touches_step h.guards_true hframe (fun c _ => c.within_true)
    (fun _ _ _ => trivial) (fun _ _ => trivial) hstep with ht | ⟨o, s, s', hs, hturns, ht⟩
  · exact ht.tidy hlog hi
  · exact Touches.tidy ht hlog (hi.turns hs hturns)

/-- **A message** is logged for its sid. -/
theorem Tidy.processMsg {sid : Nat} {v : μ} {cs : List Call} (hi : h.Tidy log)
    (hget : h.get sid = some o) (hs : h.objs[o]? = some s) (hsid : s.sid = sid)
    (hlog : ∀ sid, h.sidCounter < sid → log' sid = []) (hlog' : log' sid = log sid ++ [v])
    (hother : ∀ i, i ≠ sid → log' i = log i) : (h.processMsg sid v cs).Tidy log' := by
  subst hsid
  have hgets : (h.setObj o (s.gets v)).Tidy log' := by
    refine hi.setObj hs (s.sid_gets v) (s.draining_gets v) (fun hparked => ?_)
      (fun hended => SubscriptionImpl.ended_gets hended v) (fun hgathers => .inr ?_) hother
    · rw [s.consumer_gets]
      exact hparked
    · rw [hlog']
      exact hgathers.gets v
  have ht := touches_processMsg (P := fun _ => True) (v := v) hget hs (guards_true _)
    (fun c (_ : c ∈ cs) => c.within_true) fun _ _ => trivial
  exact Touches.tidy ht hlog hgets

/-! ### What an iterator was given first -/

/-- The event does not stop the iterator of subscription `o` behind its back: neither the user nor a
timer does. -/
def Event.Keeps (o : Nat) : Event μ E → Prop
  | .timeout i _ _ | .stop i _ | .leave i => i ≠ o
  | .call _ | .drained _ _ | .message _ _ _ | .next _ | .dialDone | .link _ => True

theorem Turns.headed {vs : List μ} {e : Event μ E} (ht : Turns o s e s') (hkeeps : e.Keeps o)
    (hhead : s.iter.Headed vs) : s'.iter.Headed vs := by
  cases ht with
  | next next =>
      obtain ⟨it, closed, hit, rfl⟩ := SubscriptionImpl.next_eq next
      exact hhead.next (fun _ => rfl) hit
  | stop | leave | timeout => exact absurd rfl hkeeps

/-- **Every event** leaves it where it is. -/
theorem headed_step {vs : List μ} {e : Event μ E} (hframe : ¬ Session.isFrame e = true)
    (hkeeps : e.Keeps o) (hstep : h.step e = some h') (hs : h.objs[o]? = some s)
    (hkind : s.noIterator = false) (hhead : s.iter.Headed vs) :
    ∃ s', h'.objs[o]? = some s' ∧ s'.noIterator = false ∧ s'.iter.Headed vs := by
  rcases touches_step h.guards_true hframe (fun c _ => c.within_true)
    (fun _ _ _ => trivial) (fun _ _ => trivial) hstep with ht | ⟨i, x, x', hx, hturns, ht⟩
  · exact ht.headed hs hkind hhead
  · by_cases hi : o = i
    · subst hi
      rw [hs, Option.some.injEq] at hx
      subst hx
      exact Touches.headed ht (setObj_self hs) (hturns.kind.trans hkind)
        (hturns.headed hkeeps hhead)
    · exact Touches.headed ht ((setObj_ne hi).trans hs) hkind hhead

/-- **Every message** comes behind. -/
theorem headed_processMsg {vs : List μ} (sid : Nat) (v : μ) (cs : List Call)
    (hs : h.objs[o]? = some s) (hkind : s.noIterator = false) (hhead : s.iter.Headed vs) :
    ∃ s', (h.processMsg sid v cs).objs[o]? = some s' ∧ s'.noIterator = false ∧
      s'.iter.Headed vs := by
  cases hget : h.get sid with
  | none =>
      rw [processMsg, hget]
      exact ⟨s, hs, hkind, hhead⟩
  | some i =>
      cases hx : h.objs[i]? with
      | none =>
          simp only [processMsg, hget, hx]
          exact ⟨s, hs, hkind, hhead⟩
      | some x =>
          have ht := touches_processMsg (P := fun _ => True) (v := v) hget hx (guards_true _)
            (fun c (_ : c ∈ cs) => c.within_true) fun _ _ => trivial
          by_cases hi : o = i
          · subst hi
            rw [hs, Option.some.injEq] at hx
            subst hx
            exact Touches.headed ht (setObj_self hs) ((s.kind_gets v).trans hkind)
              (SubscriptionImpl.headed_gets hhead v)
          · exact Touches.headed ht ((setObj_ne hi).trans hs) hkind hhead

end ProtocolHandler

end NatsClient.Connection
