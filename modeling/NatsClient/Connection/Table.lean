import NatsClient.Connection.SidAgreement
import Mathlib.Data.List.Nodup

/-!
# The subscription table

The integrity of the table of the protocol handler (`Table`): every key is the sid of the object it
maps to, sids are not used twice, a draining subscription of the table has a continuation that will
cancel it, and a subscription that got all it wants has left the table. `wanted` is the part of the
table that the server should know, and the lemmas say how it changes with an object and with the
table.
-/

set_option autoImplicit false

namespace NatsClient.Connection

open NatsClient.Foundation NatsClient.Iterator

variable {μ E : Type}

namespace SubscriptionImpl

/-- What the server should know of the subscription. -/
def wanted (s : SubscriptionImpl μ E) : Wanted := ⟨s.subject, s.group, limitOf s.max, s.received⟩

/-- What the table and the server go by; most methods leave it alone. -/
def registration (s : SubscriptionImpl μ E) :=
  (s.sid, s.subject, s.queue, s.draining, s.max, s.received)

theorem registration_stop (s : SubscriptionImpl μ E) (err : Option E) :
    (s.stop err).registration = s.registration := by
  unfold stop QueuedIterator.stop
  by_cases hd : s.iter.done = true
  · rw [if_pos hd]
  · rw [if_neg hd]
    rfl

theorem registration_close (s : SubscriptionImpl μ E) : s.close.registration = s.registration := by
  unfold close
  by_cases hclosed : s.isClosed = true
  · rw [if_pos hclosed]
  · rw [if_neg hclosed]
    by_cases hcallback : s.noIterator = true
    · rw [if_pos hcallback]
      exact registration_stop s.cancelTimeout none
    · rw [if_neg hcallback]
      unfold QueuedIterator.pushFn
      by_cases hd : s.iter.done = true
      · rw [if_pos hd]
        rfl
      · rw [if_neg hd]
        rfl

theorem registration_push (s : SubscriptionImpl μ E) (v : μ) :
    (s.push v).registration = s.registration := by
  unfold push QueuedIterator.push
  by_cases hd : s.iter.done = true
  · rw [if_pos hd]
    rfl
  · rw [if_neg hd]
    rfl

theorem received_finish (it : QueuedIterator μ CloseFn E) (err : Option E) :
    (it.finish err).received = it.received := by
  unfold QueuedIterator.finish QueuedIterator.stop
  by_cases hd : it.done = true
  · rw [if_pos hd]
  · rw [if_neg hd]

theorem received_takeBatch (it : QueuedIterator μ CloseFn E) :
    it.takeBatch.received = it.received := by
  unfold QueuedIterator.takeBatch
  cases it.err with
  | none => rfl
  | some e => exact received_finish it (some e)

/-- The consumer does not count messages. -/
theorem received_next {it it' : QueuedIterator μ CloseFn E}
    (h : it.next (fun _ => true) closeEffect = some it') : it'.received = it.received := by
  -- a turn of the consumer is a resumption and some ticks
  refine QueuedIterator.next_induction (I := fun x => x.received = it.received) ?_ ?_ h rfl
  · intro x x' hx hres
    cases hc : x.consumer with
    | idle =>
        simp only [QueuedIterator.resume, hc, Option.some.injEq] at hres
        rw [← hres]
        by_cases hy : x.yields = []
        · rw [if_pos hy]
          exact hx
        · rw [if_neg hy]
          exact (received_takeBatch x).trans hx
    | waiting =>
        simp only [QueuedIterator.resume, hc, Option.ite_none_right_eq_some,
          Option.some.injEq] at hres
        obtain ⟨-, rfl⟩ := hres
        exact (received_takeBatch x).trans hx
    | presenting v batch =>
        simp only [QueuedIterator.resume, hc, Option.some.injEq] at hres
        rw [← hres]
        exact hx
    | running batch | finished err =>
        simp only [QueuedIterator.resume, hc] at hres
        cases hres
  · intro x hx hrun
    cases hc : x.consumer with
    | idle | waiting | presenting v batch | finished err =>
        rw [hc] at hrun
        cases hrun
    | running batch =>
        rcases batch with - | ⟨v | f, batch⟩
        · by_cases hd : x.done = true
          · simp only [QueuedIterator.tick, hc, if_pos hd]
            exact (received_finish x none).trans hx
          · by_cases hy : x.yields = []
            · simp only [QueuedIterator.tick, hc, if_neg hd, if_pos hy]
              exact hx
            · simp only [QueuedIterator.tick, hc, if_neg hd, if_neg hy]
              exact (received_takeBatch x).trans hx
        · simp only [QueuedIterator.tick, hc, if_true]
          exact hx
        · -- a function in the queue closes the subscription, which stops the iterator
          have hstop : (x.stop none).received = x.received := by
            unfold QueuedIterator.stop
            by_cases hd : x.done = true
            · rw [if_pos hd]
            · rw [if_neg hd]
          simp only [QueuedIterator.tick, hc, QueuedIterator.apply, closeEffect]
          cases (x.stop none).err with
          | none => exact hstop.trans hx
          | some e => exact (received_finish _ _).trans (hstop.trans hx)

theorem registration_next {s s' : SubscriptionImpl μ E} (h : s.next = some s') :
    s'.registration = s.registration := by
  unfold next at h
  cases hit : s.iter.next (fun _ => true) closeEffect with
  | none =>
      rw [hit] at h
      cases h
  | some it =>
      rw [hit] at h
      simp only [Option.some.injEq] at h
      rw [← h]
      show (_, _, _, _, _, it.received) = _
      rw [received_next hit]
      rfl

theorem registration_leave (s : SubscriptionImpl μ E) : s.leave.registration = s.registration := by
  show (_, _, _, _, _, (s.iter.finish none).received) = _
  rw [received_finish]
  rfl

/-- What the registration decides. -/
theorem wanted_of_registration {s s' : SubscriptionImpl μ E}
    (h : s'.registration = s.registration) :
    s'.sid = s.sid ∧ s'.draining = s.draining ∧ s'.wanted = s.wanted := by
  simp only [registration, Prod.mk.injEq] at h
  obtain ⟨hsid, hsubject, hqueue, hdraining, hmax, hreceived⟩ := h
  refine ⟨hsid, hdraining, ?_⟩
  simp only [wanted, group, hsubject, hqueue, hmax, hreceived]

end SubscriptionImpl

namespace ProtocolHandler

variable {h h' : ProtocolHandler μ E} {s s' : SubscriptionImpl μ E} {o sid : Nat}
  {except : Option Nat}

/-- The subscription of the table under a sid. -/
def find (h : ProtocolHandler μ E) (sid : Nat) : Option (SubscriptionImpl μ E) :=
  (h.get sid).bind fun o => h.objs[o]?

/-- What the server should know of a sid. -/
def wanted (h : ProtocolHandler μ E) (sid : Nat) : Option Wanted :=
  (h.find sid).bind fun s => if s.draining then none else some s.wanted

/-- The integrity of the table. Object `except` may be in the middle of `processMsg`. -/
structure Table (h : ProtocolHandler μ E) (except : Option Nat) : Prop where
  mem : ∀ sid o, (sid, o) ∈ h.subs → ∃ s, h.objs[o]? = some s ∧ s.sid = sid
  nodup : (h.subs.map Prod.fst).Nodup
  sid_le : ∀ (o : Nat) (s : SubscriptionImpl μ E), h.objs[o]? = some s → s.sid ≤ h.sidCounter
  inj : ∀ (o o' : Nat) (s s' : SubscriptionImpl μ E), h.objs[o]? = some s → h.objs[o']? = some s' →
    s.sid = s'.sid → o = o'
  /-- A draining subscription of the table waits for its continuation. -/
  draining : ∀ (sid o : Nat) (s : SubscriptionImpl μ E), (sid, o) ∈ h.subs → h.objs[o]? = some s →
    s.draining = true → ∃ d, (o, d) ∈ h.drains
  drains : ∀ o d, (o, d) ∈ h.drains →
    d < h.link.deferreds.created ∧ ∃ s, h.objs[o]? = some s ∧ s.draining = true
  bounded : ∀ (sid o : Nat) (s : SubscriptionImpl μ E), (sid, o) ∈ h.subs → except ≠ some o →
    h.objs[o]? = some s → s.draining = false → ∀ k, s.wanted.limit = some k → s.received < k

/-! ### Lookups -/

theorem mem_of_get (hget : h.get sid = some o) : (sid, o) ∈ h.subs := by
  obtain ⟨l₁, l₂, heq, -⟩ := List.lookup_eq_some_iff.1 hget
  rw [heq]
  exact List.mem_append_right _ List.mem_cons_self

theorem get_of_mem (hnodup : (h.subs.map Prod.fst).Nodup) (hmem : (sid, o) ∈ h.subs) :
    h.get sid = some o := by
  cases hget : h.get sid with
  | none =>
      have hne := List.lookup_eq_none_iff.1 hget (sid, o) hmem
      simp at hne
  | some o' =>
      have hmem' := mem_of_get hget
      have heq := List.inj_on_of_nodup_map hnodup hmem hmem' rfl
      rw [(Prod.mk.inj heq).2]

theorem mem_delete {subs : List (Nat × Nat)} {x : Nat × Nat} :
    x ∈ delete subs sid ↔ x ∈ subs ∧ x.1 ≠ sid := by
  simp [delete]

theorem get_eq_of_mem_iff {h h' : ProtocolHandler μ E} (hnodup : (h.subs.map Prod.fst).Nodup)
    (hnodup' : (h'.subs.map Prod.fst).Nodup) (heq : ∀ o, (sid, o) ∈ h'.subs ↔ (sid, o) ∈ h.subs) :
    h'.get sid = h.get sid := by
  cases hget : h.get sid with
  | some o => exact get_of_mem hnodup' ((heq o).2 (mem_of_get hget))
  | none =>
      cases hget' : h'.get sid with
      | none => rfl
      | some o =>
          rw [get_of_mem hnodup ((heq o).1 (mem_of_get hget'))] at hget
          cases hget

theorem get_eq_none (hno : ∀ o, (sid, o) ∉ h.subs) : h.get sid = none := by
  cases hget : h.get sid with
  | none => rfl
  | some o => exact absurd (mem_of_get hget) (hno o)

theorem wanted_eq_none (hno : ∀ o, (sid, o) ∉ h.subs) : h.wanted sid = none := by
  rw [wanted, find, get_eq_none hno]
  rfl

/-- A sid above the counter is not in the table. -/
theorem Table.not_mem_of_lt (t : h.Table except) (hlt : h.sidCounter < sid) :
    ∀ o, (sid, o) ∉ h.subs := by
  intro o hmem
  obtain ⟨s, hs, hsid⟩ := t.mem sid o hmem
  have hle := t.sid_le o s hs
  omega

/-- What the table says of an object. -/
theorem Table.wanted_of_mem (t : h.Table except) (hmem : (sid, o) ∈ h.subs)
    (hs : h.objs[o]? = some s) :
    h.wanted sid = if s.draining then none else some s.wanted := by
  rw [wanted, find, get_of_mem t.nodup hmem, Option.bind_some, hs, Option.bind_some]

/-- A wanted sid is that of an object of the table that is not draining. -/
theorem Table.mem_of_wanted (t : h.Table except) {w : Wanted} (hw : h.wanted sid = some w) :
    ∃ o s, (sid, o) ∈ h.subs ∧ h.objs[o]? = some s ∧ s.sid = sid ∧ s.draining = false ∧
      s.wanted = w := by
  cases hget : h.get sid with
  | none =>
      rw [wanted, find, hget] at hw
      cases hw
  | some o =>
      have hmem := mem_of_get hget
      obtain ⟨s, hs, hsid⟩ := t.mem sid o hmem
      rw [t.wanted_of_mem hmem hs] at hw
      by_cases hd : s.draining = true
      · rw [if_pos hd] at hw
        cases hw
      · rw [if_neg hd, Option.some.injEq] at hw
        exact ⟨o, s, hmem, hs, hsid, Bool.eq_false_iff.2 hd, hw⟩

/-! ### Changes -/

/-- The link, or anything else that the table does not go by, changes. -/
theorem Table.congr (t : h.Table except) (hobjs : h'.objs = h.objs) (hsubs : h'.subs = h.subs)
    (hcounter : h'.sidCounter = h.sidCounter) (hdrains : h'.drains = h.drains)
    (hcreated : h.link.deferreds.created ≤ h'.link.deferreds.created) : h'.Table except where
  mem := by rw [hsubs, hobjs]; exact t.mem
  nodup := by rw [hsubs]; exact t.nodup
  sid_le := by rw [hobjs, hcounter]; exact t.sid_le
  inj := by rw [hobjs]; exact t.inj
  draining := by rw [hsubs, hobjs, hdrains]; exact t.draining
  drains o d hmem := by
    rw [hdrains] at hmem
    rw [hobjs]
    exact ⟨Nat.lt_of_lt_of_le (t.drains o d hmem).1 hcreated, (t.drains o d hmem).2⟩
  bounded := by rw [hsubs, hobjs]; exact t.bounded

theorem wanted_congr (hobjs : h'.objs = h.objs) (hsubs : h'.subs = h.subs) (sid : Nat) :
    h'.wanted sid = h.wanted sid := by
  rw [wanted, wanted, find, find, get, get, hobjs, hsubs]

theorem getElem?_setObj (h : ProtocolHandler μ E) (o : Nat) (s : SubscriptionImpl μ E) (i : Nat) :
    (h.setObj o s).objs[i]? = if o = i ∧ o < h.objs.length then some s else h.objs[i]? := by
  show (h.objs.set o s)[i]? = _
  rw [List.getElem?_set]
  by_cases hi : o = i
  · subst hi
    by_cases hlt : o < h.objs.length
    · simp only [hlt, if_true, and_self]
    · simp only [hlt, if_true, if_false, and_false]
      exact (List.getElem?_eq_none (Nat.le_of_not_lt hlt)).symm
  · rw [if_neg hi, if_neg (fun hc => hi hc.1)]

/-- The object itself is the new one, and the others stay. -/
theorem setObj_cases (hs : h.objs[o]? = some s) {i : Nat} {x : SubscriptionImpl μ E}
    (hx : (h.setObj o s').objs[i]? = some x) :
    (i = o ∧ x = s') ∨ (i ≠ o ∧ h.objs[i]? = some x) := by
  have hlt : o < h.objs.length := (List.getElem?_eq_some_iff.1 hs).1
  rw [getElem?_setObj] at hx
  by_cases hi : o = i
  · rw [if_pos ⟨hi, hlt⟩, Option.some.injEq] at hx
    exact Or.inl ⟨hi.symm, hx.symm⟩
  · rw [if_neg (fun hc => hi hc.1)] at hx
    exact Or.inr ⟨fun heq => hi heq.symm, hx⟩

theorem setObj_self (hs : h.objs[o]? = some s) : (h.setObj o s').objs[o]? = some s' := by
  rw [getElem?_setObj, if_pos ⟨rfl, (List.getElem?_eq_some_iff.1 hs).1⟩]

theorem setObj_ne {i : Nat} (hi : i ≠ o) : (h.setObj o s').objs[i]? = h.objs[i]? := by
  rw [getElem?_setObj, if_neg (fun hc => hi hc.1.symm)]

/-- Sids stay distinct when an object gets one no other object has. -/
theorem Table.inj_setObj (t : h.Table except) (hs : h.objs[o]? = some s)
    (hfresh : ∀ (i : Nat) (x : SubscriptionImpl μ E), i ≠ o → h.objs[i]? = some x →
      x.sid ≠ s'.sid) :
    ∀ (i j : Nat) (x y : SubscriptionImpl μ E), (h.setObj o s').objs[i]? = some x →
      (h.setObj o s').objs[j]? = some y → x.sid = y.sid → i = j := by
  intro i j x y hx hy heq
  rcases setObj_cases hs hx with ⟨hi, hxs⟩ | ⟨hi, hx₁⟩
  · rcases setObj_cases hs hy with ⟨hj, -⟩ | ⟨hj, hy₁⟩
    · rw [hi, hj]
    · exact absurd (by rw [← heq, hxs]) (hfresh j y hj hy₁)
  · rcases setObj_cases hs hy with ⟨hj, hys⟩ | ⟨-, hy₁⟩
    · exact absurd (by rw [heq, hys]) (hfresh i x hi hx₁)
    · exact t.inj i j x y hx₁ hy₁ heq

/-- An object changes under its sid. -/
theorem Table.setObj (t : h.Table except) (hs : h.objs[o]? = some s) (hsid : s'.sid = s.sid)
    (hdraining : s'.draining = s.draining)
    (hbound : except ≠ some o → s'.draining = false → (s.sid, o) ∈ h.subs →
      ∀ k, s'.wanted.limit = some k → s'.received < k) :
    (h.setObj o s').Table except where
  mem sid i hmem := by
    obtain ⟨x, hx, hxsid⟩ := t.mem sid i hmem
    by_cases hi : i = o
    · subst hi
      rw [hs, Option.some.injEq] at hx
      exact ⟨s', setObj_self hs, by rw [hsid, hx, hxsid]⟩
    · exact ⟨x, (setObj_ne hi).trans hx, hxsid⟩
  nodup := t.nodup
  sid_le i x hx := by
    rcases setObj_cases hs hx with ⟨-, rfl⟩ | ⟨-, hx⟩
    · rw [hsid]
      exact t.sid_le o s hs
    · exact t.sid_le i x hx
  inj := t.inj_setObj hs (fun i x hne hx heq => hne (t.inj i o x s hx hs (heq.trans hsid)))
  draining sid i x hmem hx hd := by
    rcases setObj_cases hs hx with ⟨rfl, rfl⟩ | ⟨-, hx⟩
    · exact t.draining sid i s hmem hs (hdraining ▸ hd)
    · exact t.draining sid i x hmem hx hd
  drains i d hmem := by
    obtain ⟨hlt, x, hx, hd⟩ := t.drains i d hmem
    refine ⟨hlt, ?_⟩
    by_cases hi : i = o
    · subst hi
      rw [hs, Option.some.injEq] at hx
      exact ⟨s', setObj_self hs, by rw [hdraining, hx, hd]⟩
    · exact ⟨x, (setObj_ne hi).trans hx, hd⟩
  bounded sid i x hmem hne hx hd := by
    rcases setObj_cases hs hx with ⟨rfl, rfl⟩ | ⟨-, hx⟩
    · obtain ⟨y, hy, hysid⟩ := t.mem sid i hmem
      rw [hs, Option.some.injEq] at hy
      rw [← hysid, ← hy] at hmem
      exact hbound hne hd hmem
    · exact t.bounded sid i x hmem hne hx hd

/-- What the server should know when an object changes under its sid. -/
theorem Table.wanted_setObj (t : h.Table except) (hs : h.objs[o]? = some s) (sid : Nat) :
    (h.setObj o s').wanted sid =
      if (sid, o) ∈ h.subs then if s'.draining then none else some s'.wanted else h.wanted sid := by
  have hsame : (h.setObj o s').get sid = h.get sid := rfl
  by_cases hmem : (sid, o) ∈ h.subs
  · rw [if_pos hmem, wanted, find, hsame, get_of_mem t.nodup hmem, Option.bind_some,
      setObj_self hs, Option.bind_some]
  · rw [if_neg hmem, wanted, wanted, find, find, hsame]
    cases hget : h.get sid with
    | none => rfl
    | some i =>
        have hi : i ≠ o := by
          rintro rfl
          exact hmem (mem_of_get hget)
        rw [Option.bind_some, Option.bind_some, setObj_ne hi]

/-- A sid leaves the table. -/
theorem Table.delete (t : h.Table except) (sid : Nat) :
    ({ h with subs := ProtocolHandler.delete h.subs sid } : ProtocolHandler μ E).Table except where
  mem i o hmem := t.mem i o (mem_delete.1 hmem).1
  nodup := t.nodup.sublist (List.filter_sublist.map Prod.fst)
  sid_le := t.sid_le
  inj := t.inj
  draining i o s hmem := t.draining i o s (mem_delete.1 hmem).1
  drains := t.drains
  bounded i o s hmem := t.bounded i o s (mem_delete.1 hmem).1

theorem Table.wanted_delete (t : h.Table except) (sid i : Nat) :
    ({ h with subs := ProtocolHandler.delete h.subs sid } : ProtocolHandler μ E).wanted i =
      if i = sid then none else h.wanted i := by
  by_cases hi : i = sid
  · rw [if_pos hi]
    refine wanted_eq_none fun o hmem => ?_
    exact (mem_delete.1 hmem).2 hi
  · rw [if_neg hi, wanted, wanted, find, find, get_eq_of_mem_iff t.nodup (t.delete sid).nodup]
    intro o
    rw [mem_delete]
    exact ⟨fun hmem => hmem.1, fun hmem => ⟨hmem, hi⟩⟩

/-- An object outside of the table under its sid: nothing is wanted of the sid. -/
theorem Table.wanted_eq_none (t : h.Table except) (hs : h.objs[o]? = some s)
    (hout : (s.sid, o) ∉ h.subs) : h.wanted s.sid = none := by
  refine ProtocolHandler.wanted_eq_none fun o' hmem => ?_
  obtain ⟨s', hs', hsid⟩ := t.mem s.sid o' hmem
  rw [t.inj o' o s' s hs' hs hsid] at hmem
  exact hout hmem

/-- The sids of the table for an object. -/
theorem Table.sid_eq (t : h.Table except) (hs : h.objs[o]? = some s) (hmem : (sid, o) ∈ h.subs) :
    sid = s.sid := by
  obtain ⟨s', hs', hsid⟩ := t.mem sid o hmem
  rw [hs, Option.some.injEq] at hs'
  rw [← hsid, hs']

/-- An object changes and its sid leaves the table. -/
theorem Table.remove (t : h.Table except) (hs : h.objs[o]? = some s) (hsid : s'.sid = s.sid)
    (hdraining : s'.draining = s.draining) :
    ({ h.setObj o s' with subs := ProtocolHandler.delete h.subs s.sid } :
      ProtocolHandler μ E).Table except :=
  (t.delete s.sid).setObj (h := { h with subs := ProtocolHandler.delete h.subs s.sid }) hs hsid
    hdraining fun _ _ hmem => absurd rfl (mem_delete.1 hmem).2

theorem Table.wanted_remove (t : h.Table except) (hs : h.objs[o]? = some s) (i : Nat) :
    ({ h.setObj o s' with subs := ProtocolHandler.delete h.subs s.sid } :
      ProtocolHandler μ E).wanted i = if i = s.sid then none else h.wanted i := by
  refine Eq.trans ((t.delete s.sid).wanted_setObj hs i) ?_
  have hout : (i, o) ∉ ProtocolHandler.delete h.subs s.sid := by
    intro hmem
    obtain ⟨hmem, hne⟩ := mem_delete.1 hmem
    exact hne (t.sid_eq hs hmem)
  rw [if_neg hout, t.wanted_delete]

/-- A subscription of the table starts to drain, and its continuation is installed. -/
theorem Table.drain {d : Nat} {link : Link} (t : h.Table except) (hs : h.objs[o]? = some s)
    (hsid : s'.sid = s.sid) (hdraining : s'.draining = true)
    (hcreated : h.link.deferreds.created ≤ link.deferreds.created)
    (hd : d < link.deferreds.created) :
    ({ h.setObj o s' with link := link, drains := h.drains ++ [(o, d)] } :
      ProtocolHandler μ E).Table except where
  mem sid i hmem := by
    obtain ⟨x, hx, hxsid⟩ := t.mem sid i hmem
    by_cases hi : i = o
    · subst hi
      rw [hs, Option.some.injEq] at hx
      exact ⟨s', setObj_self hs, by rw [hsid, hx, hxsid]⟩
    · exact ⟨x, (setObj_ne hi).trans hx, hxsid⟩
  nodup := t.nodup
  sid_le i x hx := by
    rcases setObj_cases hs hx with ⟨-, rfl⟩ | ⟨-, hx⟩
    · rw [hsid]
      exact t.sid_le o s hs
    · exact t.sid_le i x hx
  inj := t.inj_setObj hs (fun i x hne hx heq => hne (t.inj i o x s hx hs (heq.trans hsid)))
  draining sid i x hmem hx hdx := by
    rcases setObj_cases hs hx with ⟨rfl, -⟩ | ⟨-, hx⟩
    · -- the one that starts to drain has the new continuation
      exact ⟨d, List.mem_append_right _ (List.mem_singleton.2 rfl)⟩
    · obtain ⟨d', hd'⟩ := t.draining sid i x hmem hx hdx
      exact ⟨d', List.mem_append_left _ hd'⟩
  drains i d' hmem := by
    rcases List.mem_append.1 hmem with hmem | hmem
    · obtain ⟨hlt, x, hx, hdx⟩ := t.drains i d' hmem
      refine ⟨Nat.lt_of_lt_of_le hlt hcreated, ?_⟩
      by_cases hi : i = o
      · subst hi
        exact ⟨s', setObj_self hs, hdraining⟩
      · exact ⟨x, (setObj_ne hi).trans hx, hdx⟩
    · obtain ⟨rfl, rfl⟩ := Prod.mk.inj (List.mem_singleton.1 hmem)
      exact ⟨hd, s', setObj_self hs, hdraining⟩
  bounded sid i x hmem hne hx hdx := by
    rcases setObj_cases hs hx with ⟨rfl, rfl⟩ | ⟨-, hx⟩
    · -- limits bind those that do not drain
      rw [hdraining] at hdx
      cases hdx
    · exact t.bounded sid i x hmem hne hx hdx

/-- A new object, which is not in the table yet. -/
theorem Table.append (t : h.Table except) (hsid : s.sid = h.sidCounter + 1) :
    ({ h with objs := h.objs ++ [s], sidCounter := h.sidCounter + 1 } :
      ProtocolHandler μ E).Table except := by
  have hold : ∀ {i : Nat} {x : SubscriptionImpl μ E}, h.objs[i]? = some x →
      (h.objs ++ [s])[i]? = some x := by
    intro i x hx
    rw [List.getElem?_append_left (List.getElem?_eq_some_iff.1 hx).1]
    exact hx
  have hcases : ∀ {i : Nat} {x : SubscriptionImpl μ E}, (h.objs ++ [s])[i]? = some x →
      (i = h.objs.length ∧ x = s) ∨ h.objs[i]? = some x := by
    intro i x hx
    by_cases hlt : i < h.objs.length
    · rw [List.getElem?_append_left hlt] at hx
      exact Or.inr hx
    · rw [List.getElem?_append_right (Nat.le_of_not_lt hlt)] at hx
      obtain ⟨hi, hxs⟩ := List.getElem?_eq_some_iff.1 hx
      rw [List.length_singleton] at hi
      exact Or.inl ⟨by omega, by rw [← hxs, List.getElem_singleton]⟩
  -- the table has no entry for the new object, so that all of it speaks of the old ones
  have hin : ∀ {sid i : Nat} {x : SubscriptionImpl μ E}, (sid, i) ∈ h.subs →
      (h.objs ++ [s])[i]? = some x → h.objs[i]? = some x := by
    intro sid i x hmem hx
    obtain ⟨y, hy, -⟩ := t.mem sid i hmem
    rw [hold hy] at hx
    rw [← hx]
    exact hy
  refine ⟨?_, t.nodup, ?_, ?_, ?_, ?_, ?_⟩
  · intro sid i hmem
    obtain ⟨x, hx, hxsid⟩ := t.mem sid i hmem
    exact ⟨x, hold hx, hxsid⟩
  · intro i x hx
    show x.sid ≤ h.sidCounter + 1
    rcases hcases hx with ⟨-, rfl⟩ | hx
    · omega
    · have hle := t.sid_le i x hx
      omega
  · intro i j x y hx hy heq
    rcases hcases hx with ⟨hi, hxs⟩ | hx₁
    · rcases hcases hy with ⟨hj, -⟩ | hy₁
      · rw [hi, hj]
      · -- the counter was above the sids of the old objects
        have hle := t.sid_le j y hy₁
        rw [hxs] at heq
        omega
    · rcases hcases hy with ⟨hj, hys⟩ | hy₁
      · have hle := t.sid_le i x hx₁
        rw [hys] at heq
        omega
      · exact t.inj i j x y hx₁ hy₁ heq
  · intro sid i x hmem hx
    exact t.draining sid i x hmem (hin hmem hx)
  · intro i d hmem
    obtain ⟨hlt, x, hx, hd⟩ := t.drains i d hmem
    exact ⟨hlt, x, hold hx, hd⟩
  · intro sid i x hmem hne hx
    exact t.bounded sid i x hmem hne (hin hmem hx)

theorem Table.wanted_append (t : h.Table except) (s : SubscriptionImpl μ E) (counter i : Nat) :
    ({ h with objs := h.objs ++ [s], sidCounter := counter } : ProtocolHandler μ E).wanted i =
      h.wanted i := by
  rw [wanted, wanted, find, find, get, get]
  cases hget : h.subs.lookup i with
  | none => rfl
  | some o =>
      obtain ⟨x, hx, -⟩ := t.mem i o (mem_of_get hget)
      rw [Option.bind_some, Option.bind_some,
        List.getElem?_append_left (List.getElem?_eq_some_iff.1 hx).1]

/-- An object outside of the table gets a new sid. -/
theorem Table.move (t : h.Table except) (hs : h.objs[o]? = some s) (s' : SubscriptionImpl μ E)
    (hout : ∀ sid, (sid, o) ∉ h.subs) (hsid : s'.sid = h.sidCounter + 1)
    (hdraining : s'.draining = s.draining) :
    ({ h.setObj o s' with sidCounter := h.sidCounter + 1 } : ProtocolHandler μ E).Table except := by
  have hne : ∀ {sid i : Nat}, (sid, i) ∈ h.subs → i ≠ o := by
    rintro sid i hmem rfl
    exact hout sid hmem
  refine ⟨?_, t.nodup, ?_, ?_, ?_, ?_, ?_⟩
  · intro sid i hmem
    obtain ⟨x, hx, hxsid⟩ := t.mem sid i hmem
    exact ⟨x, (setObj_ne (hne hmem)).trans hx, hxsid⟩
  · intro i x hx
    show x.sid ≤ h.sidCounter + 1
    rcases setObj_cases hs hx with ⟨-, rfl⟩ | ⟨-, hx⟩
    · omega
    · have hle := t.sid_le i x hx
      omega
  · refine t.inj_setObj hs fun i x _ hx heq => ?_
    have hle := t.sid_le i x hx
    omega
  · intro sid i x hmem hx
    exact t.draining sid i x hmem ((setObj_ne (hne hmem)).symm.trans hx)
  · intro i d hmem
    obtain ⟨hlt, x, hx, hd⟩ := t.drains i d hmem
    refine ⟨hlt, ?_⟩
    by_cases hi : i = o
    · subst hi
      rw [hs, Option.some.injEq] at hx
      exact ⟨s', setObj_self hs, by rw [hdraining, hx, hd]⟩
    · exact ⟨x, (setObj_ne hi).trans hx, hd⟩
  · intro sid i x hmem hex hx
    exact t.bounded sid i x hmem hex ((setObj_ne (hne hmem)).symm.trans hx)

theorem wanted_move (hout : ∀ sid, (sid, o) ∉ h.subs) (s : SubscriptionImpl μ E) (counter i : Nat) :
    ({ h.setObj o s with sidCounter := counter } : ProtocolHandler μ E).wanted i = h.wanted i := by
  rw [wanted, wanted, find, find, get, get]
  show ((h.subs.lookup i).bind fun o' => (h.setObj o s).objs[o']?).bind _ = _
  cases hget : h.subs.lookup i with
  | none => rfl
  | some o' =>
      have hne : o' ≠ o := by
        rintro rfl
        exact hout i (mem_of_get hget)
      rw [Option.bind_some, Option.bind_some, setObj_ne hne]

/-- An object enters the table under its sid. -/
theorem Table.insert (t : h.Table except) (hs : h.objs[o]? = some s)
    (hnew : ∀ i, (s.sid, i) ∉ h.subs) (hd : s.draining = false)
    (hbound : ∀ k, s.wanted.limit = some k → s.received < k) :
    ({ h with subs := h.subs ++ [(s.sid, o)] } : ProtocolHandler μ E).Table except := by
  have hcases : ∀ {sid i : Nat}, (sid, i) ∈ h.subs ++ [(s.sid, o)] →
      (sid, i) ∈ h.subs ∨ sid = s.sid ∧ i = o := by
    intro sid i hmem
    rcases List.mem_append.1 hmem with hmem | hmem
    · exact Or.inl hmem
    · exact Or.inr (Prod.mk.inj (List.mem_singleton.1 hmem))
  refine ⟨?_, ?_, t.sid_le, t.inj, ?_, t.drains, ?_⟩
  · intro sid i hmem
    rcases hcases hmem with hmem | ⟨rfl, rfl⟩
    · exact t.mem sid i hmem
    · exact ⟨s, hs, rfl⟩
  · show ((h.subs ++ [(s.sid, o)]).map Prod.fst).Nodup
    rw [List.map_append, List.nodup_append]
    refine ⟨t.nodup, List.nodup_singleton _, ?_⟩
    intro a ha b hb heq
    obtain ⟨⟨sid, i⟩, hmem, rfl⟩ := List.mem_map.1 ha
    rw [List.map_singleton, List.mem_singleton] at hb
    rw [hb] at heq
    exact hnew i ((show sid = s.sid from heq) ▸ hmem)
  · intro sid i x hmem hx hdx
    rcases hcases hmem with hmem | ⟨rfl, rfl⟩
    · exact t.draining sid i x hmem hx hdx
    · rw [hs, Option.some.injEq] at hx
      rw [← hx, hd] at hdx
      cases hdx
  · intro sid i x hmem hne hx hdx
    rcases hcases hmem with hmem | ⟨rfl, rfl⟩
    · exact t.bounded sid i x hmem hne hx hdx
    · rw [hs, Option.some.injEq] at hx
      rw [← hx]
      exact hbound

theorem Table.wanted_insert (t : h.Table except) (hs : h.objs[o]? = some s)
    (hnew : ∀ i, (s.sid, i) ∉ h.subs) (hd : s.draining = false)
    (hbound : ∀ k, s.wanted.limit = some k → s.received < k) (i : Nat) :
    ({ h with subs := h.subs ++ [(s.sid, o)] } : ProtocolHandler μ E).wanted i =
      if i = s.sid then some s.wanted else h.wanted i := by
  have t' := t.insert hs hnew hd hbound
  by_cases hi : i = s.sid
  · have hmem : (s.sid, o) ∈ h.subs ++ [(s.sid, o)] :=
      List.mem_append_right _ (List.mem_singleton.2 rfl)
    have hw := t'.wanted_of_mem hmem hs
    rw [hd] at hw
    rw [if_pos hi, hi, hw]
    rfl
  · rw [if_neg hi, wanted, wanted, find, find, get_eq_of_mem_iff t.nodup t'.nodup]
    intro o'
    rw [List.mem_append, List.mem_singleton, Prod.mk.injEq]
    exact ⟨fun hmem => hmem.resolve_right fun heq => hi heq.1, Or.inl⟩

theorem subs_unsubscribe_of_reachedMax (hs : h.objs[o]? = some s) (hmax : s.reachedMax = true) :
    (h.unsubscribe o none).subs = delete h.subs s.sid := by
  have hunsub : (h.unsub o s none).subs = h.subs := by
    unfold ProtocolHandler.unsub
    by_cases hclosed : h.link.closed = true
    · rw [if_pos hclosed]
    · rw [if_neg hclosed]
      rfl
  have hspent : (s.unsub none h.link.closed).isSpent = true := by
    unfold SubscriptionImpl.unsub
    by_cases hclosed : h.link.closed = true
    · rw [if_pos hclosed]
      unfold SubscriptionImpl.reachedMax at hmax
      unfold SubscriptionImpl.isSpent
      cases hm : s.max with
      | none => rfl
      | some m =>
          rw [hm] at hmax
          exact hmax
    · rw [if_neg hclosed]
      rfl
  have hsid : (s.unsub none h.link.closed).sid = s.sid := by
    unfold SubscriptionImpl.unsub
    by_cases hclosed : h.link.closed = true
    · rw [if_pos hclosed]
    · rw [if_neg hclosed]
  unfold ProtocolHandler.unsubscribe
  rw [hs]
  simp only [if_pos hspent]
  show delete (h.unsub o s none).subs (s.unsub none h.link.closed).sid = _
  rw [hunsub, hsid]

end ProtocolHandler

end NatsClient.Connection
