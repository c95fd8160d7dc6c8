import NatsClient.Foundation.Run
import NatsClient.Service.Control

/-!
# The life of a service

Model of `ServiceImpl` (`service.ts`) from `start()` on: its subscriptions, endpoints that are
added, who closes it (the user, the callbacks of its subscriptions with an error, a subscription
that ends, the connection), the drains that `close` waits for and the promise `stopped`.
Continuations of promises run in the order in which these are settled, and between any two anything
else may happen.

* `stopped_exact`: `stopped` resolves with what was behind the first call of `close`, which is never
  the closing of the connection as such: the subscriptions that end with it come first. Then all is
  closed that the service had when it was stopped; and while it is not stopped nothing of it is
  closed, except for what is about to stop it;
* `discovery_exact`: a question to a number of services has one answer of each running service that
  it is about.
-/

set_option autoImplicit false

namespace NatsClient.Service

open NatsClient.Foundation NatsClient.JetStream

variable {E : Type}

/-- The error that `stopped` resolves with; `required subject` has the message `required
subscription`, the subject and `stopped`. -/
inductive StopError (E : Type) where
  | error (err : E)
  | required (subject : Text)
deriving DecidableEq, Repr

/-- Who calls `close`: the user or a callback, the continuation of a subscription that ended, or the
one of the connection. -/
inductive Cause (E : Type) where
  | given (err : Option E)
  | subscription (subject : Text)
  | connection
deriving DecidableEq, Repr

/-- What `close` is called with. -/
def Cause.reason : Cause E → Option (StopError E)
  | .given err => err.map .error
  | .subscription subject => some (.required subject)
  | .connection => none

/-- A subscription of a service; `verb` is what an internal handler answers. `settled` is the
promise of `drain()`. -/
structure Sub where
  subject : Text
  queue : Text
  verb : Option ServiceVerb
  closed : Bool
  draining : Bool
  settled : Bool
deriving DecidableEq, Repr

/-- `drain()`; it is refused where the subscription is closed. -/
def Sub.drain (sub : Sub) : Sub := if sub.closed then sub else { sub with draining := true }

/-- A continuation that is due. -/
inductive Reaction where
  | subscription (n : Nat)
  | connection
deriving DecidableEq, Repr

/-- The fields of `ServiceImpl` that decide how it ends. Its subscriptions are in the order in which
they were made, `awaited` are those whose drains `close` waits for, and `reason` is what it was
called with. `closes` are the calls of `close`, and `atStop` counts the subscriptions of the first
of them. -/
structure LiveService (E : Type) where
  subs : List Sub
  stopped : Bool
  reason : Option (StopError E)
  awaited : List Nat
  done : Option (Option (StopError E))
  ncClosed : Bool
  ncSettled : Bool
  reactions : List Reaction
  closes : List (Cause E)
  atStop : Nat
deriving DecidableEq, Repr

/-- What can happen. -/
inductive Event (E : Type) where
  | addEndpoint (subject queue : Text)
  | stop (err : Option E)
  | permission (n : Nat) (err : E)
  | subClosed (n : Nat)
  | subDrained (n : Nat)
  | flushed (n : Nat)
  | ncClosed
  | ncSettled
  | react
  | resolve
deriving DecidableEq, Repr

/-- `_doAddInternalHandler`. -/
def internalSub (q : Question) : Except String Sub :=
  match q.subject with
  | .error err => .error err
  | .ok subject => .ok ⟨subject, [], some q.verb, false, false, false⟩

namespace LiveService

/-- `start()` of a service. -/
def start (i : Identity) : Except String (LiveService E) :=
  match (questions i).mapM internalSub with
  | .error err => .error err
  | .ok subs => .ok ⟨subs, false, none, [], none, false, false, [], [], 0⟩

/-- The subscriptions that are open. -/
def opened (s : LiveService E) : List Nat :=
  (List.range s.subs.length).filter fun n => (s.subs[n]?).any fun sub => !sub.closed

/-- `close(err)`. -/
def close (cause : Cause E) (s : LiveService E) : LiveService E :=
  if s.stopped then { s with closes := s.closes ++ [cause] }
  else
    { s with
      stopped := true
      reason := cause.reason
      awaited := if s.ncClosed then [] else s.opened
      subs := if s.ncClosed then s.subs else s.subs.map Sub.drain
      closes := s.closes ++ [cause]
      atStop := s.subs.length }

/-- A subscription ends; its promise `closed` resolves. -/
def closeSub (n : Nat) (s : LiveService E) : LiveService E :=
  match s.subs[n]? with
  | none => s
  | some sub =>
      if sub.closed then s
      else
        { s with
          subs := s.subs.set n { sub with closed := true }
          reactions := s.reactions ++ [.subscription n] }

/-- The promise of a drain is settled. -/
def settle (n : Nat) (s : LiveService E) : LiveService E :=
  { s with subs := s.subs.modify n fun sub => { sub with settled := true } }

/-- The continuation of `sub.closed` and of `nc.closed()`. -/
def react (s : LiveService E) : Reaction → LiveService E
  | .subscription n =>
      if s.stopped then s
      else
        match s.subs[n]? with
        | none => s
        | some sub => s.close (.subscription sub.subject)
  | .connection => s.close .connection

/-- One event; `none` where it cannot happen. -/
def step (s : LiveService E) : Event E → Option (LiveService E)
  | .addEndpoint subject queue =>
      if s.ncClosed then none
      else some { s with subs := s.subs ++ [⟨subject, queue, none, false, false, false⟩] }
  | .stop err => some (s.close (.given err))
  | .permission n err =>
      -- the callback has the error, then the subscription is closed
      if n ∈ s.opened then some ((s.close (.given (some err))).closeSub n) else none
  | .subClosed n => if n ∈ s.opened then some (s.closeSub n) else none
  | .subDrained n =>
      match s.subs[n]? with
      | none => none
      | some sub => if s.ncClosed then none else some { s with subs := s.subs.set n sub.drain }
  | .flushed n =>
      match s.subs[n]? with
      | none => none
      | some sub =>
          if sub.draining then
            some ((s.closeSub n).settle n)
          else none
  | .ncClosed =>
      if s.ncClosed then none
      else some { (List.range s.subs.length).foldl (fun s n => s.closeSub n) s with
        ncClosed := true }
  | .ncSettled =>
      -- the transport is closed before the promise of the connection resolves
      if s.ncClosed && !s.ncSettled then
        some { s with ncSettled := true, reactions := s.reactions ++ [.connection] }
      else none
  | .react =>
      match s.reactions with
      | [] => none
      | r :: rs => some (react { s with reactions := rs } r)
  | .resolve =>
      if s.stopped ∧ s.done = none ∧ ∀ n ∈ s.awaited, (s.subs[n]?).any Sub.settled then
        some { s with done := some s.reason }
      else none

/-- The answers to what is sent to a subject. -/
def answers (s : LiveService E) (subject : Text) : List ServiceVerb :=
  (s.subs.filter fun sub => !sub.closed && subjectMatches sub.subject subject).filterMap Sub.verb

/-! ## Subscriptions -/

/-- What of a subscription does not change. -/
def shape (s : LiveService E) : List (Text × Option ServiceVerb) :=
  s.subs.map fun sub => (sub.subject, sub.verb)

section

variable {s s' : LiveService E} {n : Nat}

/-- **The end of a subscription.** -/
inductive CloseSub (n : Nat) (s : LiveService E) : LiveService E → Prop where
  | idle (h : ∀ sub : Sub, s.subs[n]? = some sub → sub.closed = true) : CloseSub n s s
  | ends (sub : Sub) (h : s.subs[n]? = some sub) (hopen : sub.closed = false) :
      CloseSub n s
        { s with
          subs := s.subs.set n { sub with closed := true }
          reactions := s.reactions ++ [.subscription n] }

theorem closeSub_cases (n : Nat) (s : LiveService E) : CloseSub n s (s.closeSub n) := by
  rw [closeSub]
  cases h : s.subs[n]? with
  | none => exact .idle fun sub hsub => by rw [h] at hsub; cases hsub
  | some sub =>
      simp only
      by_cases hclosed : sub.closed = true
      · rw [if_pos hclosed]
        exact .idle fun sub' hsub' => by rw [h] at hsub'; cases hsub'; exact hclosed
      · rw [if_neg hclosed]
        exact .ends sub h (Bool.eq_false_iff.2 hclosed)

theorem mem_opened : n ∈ s.opened ↔ ∃ sub, s.subs[n]? = some sub ∧ sub.closed = false := by
  rw [opened, List.mem_filter, List.mem_range]
  constructor
  · rintro ⟨-, hany⟩
    obtain ⟨sub, hsub, hopen⟩ := (Option.any_eq_true _ _).1 hany
    exact ⟨sub, hsub, by simpa using hopen⟩
  · rintro ⟨sub, hsub, hopen⟩
    exact ⟨(List.getElem?_eq_some_iff.1 hsub).1,
      (Option.any_eq_true _ _).2 ⟨sub, hsub, by rw [hopen]; rfl⟩⟩

/-- Subscriptions of which none ends; drains begin, and are settled where the subscription is
closed. -/
structure Same (subs subs' : List Sub) : Prop where
  length_eq : subs'.length = subs.length
  sub : ∀ (n : Nat) (sub' : Sub), subs'[n]? = some sub' → ∃ sub : Sub, subs[n]? = some sub ∧
    sub'.subject = sub.subject ∧ sub'.verb = sub.verb ∧ sub'.closed = sub.closed ∧
    (sub.settled = true → sub'.settled = true) ∧
    (sub'.settled = true → sub.settled = true ∨ sub.closed = true)

theorem Same.modify {f : Sub → Sub} (subs : List Sub) (n : Nat)
    (hf : ∀ sub : Sub, subs[n]? = some sub → (f sub).subject = sub.subject ∧
      (f sub).verb = sub.verb ∧ (f sub).closed = sub.closed ∧
      (sub.settled = true → (f sub).settled = true) ∧
      ((f sub).settled = true → sub.settled = true ∨ sub.closed = true)) :
      Same subs (subs.modify n f) where
  length_eq := List.length_modify ..
  sub m sub' hsub' := by
    rw [List.getElem?_modify] at hsub'
    obtain ⟨sub, hsub, heq⟩ := Option.map_eq_some_iff.1 hsub'
    refine ⟨sub, hsub, ?_⟩
    split at heq
    · rename_i hn
      subst hn
      exact heq ▸ hf sub hsub
    · exact heq ▸ ⟨rfl, rfl, rfl, fun h => h, .inl⟩

theorem drain_fields (sub : Sub) : sub.drain.subject = sub.subject ∧ sub.drain.verb = sub.verb ∧
    sub.drain.closed = sub.closed ∧ sub.drain.settled = sub.settled := by
  rw [Sub.drain]
  split <;> exact ⟨rfl, rfl, rfl, rfl⟩

theorem Same.drain (subs : List Sub) : Same subs (subs.map Sub.drain) where
  length_eq := List.length_map ..
  sub n sub' hsub' := by
    rw [List.getElem?_map] at hsub'
    obtain ⟨sub, hsub, rfl⟩ := Option.map_eq_some_iff.1 hsub'
    obtain ⟨hsubject, hverb, hclosed, hsettled⟩ := drain_fields sub
    exact ⟨sub, hsub, hsubject, hverb, hclosed, fun h => hsettled.trans h,
      fun h => .inl (hsettled.symm.trans h)⟩

theorem Same.shape_eq {subs subs' : List Sub} (h : Same subs subs') :
    subs'.map (fun sub => (sub.subject, sub.verb)) = subs.map fun sub =>
      (sub.subject, sub.verb) := by
  refine List.ext_getElem? fun n => ?_
  rw [List.getElem?_map, List.getElem?_map]
  cases hsub' : subs'[n]? with
  | none =>
      have hle := List.getElem?_eq_none_iff.1 hsub'
      rw [h.length_eq] at hle
      rw [List.getElem?_eq_none_iff.2 hle]
  | some sub' =>
      obtain ⟨sub, hsub, hsubject, hverb, -⟩ := h.sub n sub' hsub'
      rw [hsub, Option.map_some, Option.map_some, hsubject, hverb]

/-! ## What all runs keep -/

/-- A service that is not stopped: what ended is about to stop it, and comes before the
connection. -/
structure Running (s : LiveService E) : Prop where
  closes : s.closes = []
  done : s.done = none
  pending : ∀ (n : Nat) (sub : Sub), s.subs[n]? = some sub → sub.closed = true →
    .subscription n ∈ s.reactions
  head : s.reactions.head? ≠ some .connection

/-- A service that is stopped. -/
structure Halted (s : LiveService E) : Prop where
  first : ∃ cause, s.closes.head? = some cause ∧ cause ≠ .connection ∧ s.reason = cause.reason
  internal_le : 9 ≤ s.atStop
  atStop_le : s.atStop ≤ s.subs.length
  awaited_lt : ∀ n ∈ s.awaited, n < s.atStop
  gone : ∀ (n : Nat) (sub : Sub), n < s.atStop → s.subs[n]? = some sub → sub.closed = true ∨
    n ∈ s.awaited
  done : ∀ r ∈ s.done, r = s.reason ∧ ∀ n ∈ s.awaited, ∀ sub : Sub, s.subs[n]? = some sub →
    sub.settled = true

/-- A handler for a question: it subscribes to its subject and gives the answer of its verb. -/
def Answers (q : Question) (x : Text × Option ServiceVerb) : Prop :=
  q.subject = .ok x.1 ∧ x.2 = some q.verb

/-- What all runs keep. -/
structure Inv (i : Identity) (s : LiveService E) : Prop where
  internal : ∃ front back, s.shape = front ++ back ∧ List.Forall₂ Answers (questions i) front ∧
    ∀ x ∈ back, x.2 = none
  settled : ∀ (n : Nat) (sub : Sub), s.subs[n]? = some sub → sub.settled = true → sub.closed = true
  nc : s.ncClosed = true → ∀ (n : Nat) (sub : Sub), s.subs[n]? = some sub → sub.closed = true
  due : ∀ n, .subscription n ∈ s.reactions → n < s.subs.length
  connection : .connection ∈ s.reactions → s.ncClosed = true
  running : s.stopped = false → Running s
  halted : s.stopped = true → Halted s

/-- A service has its internal subscriptions. -/
theorem Inv.nine_le {i : Identity} (h : Inv i s) : 9 ≤ s.subs.length := by
  obtain ⟨front, back, hshape, hfront, -⟩ := h.internal
  have hlength := congrArg List.length hshape
  rw [shape, List.length_map, List.length_append, ← hfront.length_eq] at hlength
  exact hlength ▸ Nat.le_add_right _ _

/-- Subscriptions none of which ends. -/
theorem Inv.same {i : Identity} {subs' : List Sub} (h : Inv i s) (hsame : Same s.subs subs') :
    Inv i { s with subs := subs' } where
  internal := by
    obtain ⟨front, back, hshape, hfront, hback⟩ := h.internal
    exact ⟨front, back, hsame.shape_eq.trans hshape, hfront, hback⟩
  settled n sub' hsub' hsettled := by
    obtain ⟨sub, hsub, -, -, hclosed, -, hold⟩ := hsame.sub n sub' hsub'
    rw [hclosed]
    exact (hold hsettled).elim (h.settled n sub hsub) fun h => h
  nc hnc n sub' hsub' := by
    obtain ⟨sub, hsub, -, -, hclosed, -⟩ := hsame.sub n sub' hsub'
    exact hclosed.trans (h.nc hnc n sub hsub)
  due n hn := hsame.length_eq ▸ h.due n hn
  connection := h.connection
  running hrun := by
    obtain ⟨hcloses, hdone, hpending, hhead⟩ := h.running hrun
    refine ⟨hcloses, hdone, fun n sub' hsub' hclosed' => ?_, hhead⟩
    obtain ⟨sub, hsub, -, -, hclosed, -⟩ := hsame.sub n sub' hsub'
    exact hpending n sub hsub (hclosed.symm.trans hclosed')
  halted hstop := by
    obtain ⟨hfirst, hnine, hle, hlt, hgone, hdone⟩ := h.halted hstop
    refine ⟨hfirst, hnine, hsame.length_eq ▸ hle, hlt, fun n sub' hn hsub' => ?_,
      fun r hr => ⟨(hdone r hr).1, fun n hn sub' hsub' => ?_⟩⟩
    · obtain ⟨sub, hsub, -, -, hclosed, -⟩ := hsame.sub n sub' hsub'
      rw [hclosed]
      exact hgone n sub hn hsub
    · obtain ⟨sub, hsub, -, -, -, hkeep, -⟩ := hsame.sub n sub' hsub'
      exact hkeep ((hdone r hr).2 n hn sub hsub)

/-- **`close`.** The first call decides, and it is not that of the connection. -/
theorem Inv.close {i : Identity} (h : Inv i s) (cause : Cause E)
    (hcause : s.stopped = false → cause ≠ .connection) : Inv i (s.close cause) := by
  by_cases hstopped : s.stopped = true
  · rw [LiveService.close, if_pos hstopped]
    refine ⟨h.internal, h.settled, h.nc, h.due, h.connection, fun hrun => ?_, fun _ => ?_⟩
    · exact absurd (hstopped.symm.trans hrun) (by decide)
    · obtain ⟨⟨first, hfirst, hne, hreason⟩, hnine, hle, hlt, hgone, hdone⟩ := h.halted hstopped
      refine ⟨⟨first, ?_, hne, hreason⟩, hnine, hle, hlt, hgone, hdone⟩
      rw [List.head?_append, hfirst, Option.some_or]
  · have hrun := Bool.eq_false_iff.2 hstopped
    obtain ⟨hcloses, hdone, hpending, hhead⟩ := h.running hrun
    have hsame : Same s.subs (if s.ncClosed then s.subs else s.subs.map Sub.drain) := by
      split
      · exact ⟨rfl, fun n sub hsub => ⟨sub, hsub, rfl, rfl, rfl, fun h => h, .inl⟩⟩
      · exact Same.drain s.subs
    have hinv := h.same hsame
    rw [LiveService.close, if_neg hstopped]
    refine ⟨hinv.internal, hinv.settled, hinv.nc, hinv.due, h.connection, fun hrun => ?_,
      fun _ => ?_⟩
    · cases hrun
    · refine ⟨⟨cause, ?_, hcause hrun, rfl⟩, h.nine_le, hsame.length_eq.ge, fun n hn => ?_,
        fun n sub' hn hsub' => ?_, fun r hr => ?_⟩
      · rw [hcloses]
        rfl
      · have hn : n ∈ if s.ncClosed = true then [] else s.opened := hn
        split at hn
        · cases hn
        · obtain ⟨sub, hsub, -⟩ := mem_opened.1 hn
          exact (List.getElem?_eq_some_iff.1 hsub).1
      · obtain ⟨sub, hsub, -, -, hclosed, -⟩ := hsame.sub n sub' hsub'
        by_cases hopen : sub.closed = true
        · exact .inl (hclosed.trans hopen)
        · refine .inr ?_
          show n ∈ if s.ncClosed = true then [] else s.opened
          rw [if_neg fun hnc => hopen (h.nc hnc n sub hsub)]
          exact mem_opened.2 ⟨sub, hsub, Bool.eq_false_iff.2 hopen⟩
      · rw [hdone] at hr
        cases hr

/-- **The end of a subscription** is noticed. -/
theorem Inv.closeSub {i : Identity} (h : Inv i s) (n : Nat) : Inv i (s.closeSub n) := by
  have hcases := closeSub_cases n s
  generalize s.closeSub n = s' at hcases ⊢
  cases hcases with
  | idle hidle => exact h
  | ends sub hsub hopen =>
      have hlt := (List.getElem?_eq_some_iff.1 hsub).1
      have hget : ∀ m sub', (s.subs.set n { sub with closed := true })[m]? = some sub' →
          (m = n ∧ sub' = { sub with closed := true }) ∨ (m ≠ n ∧ s.subs[m]? = some sub') := by
        intro m sub' hsub'
        rw [List.getElem?_set] at hsub'
        by_cases hm : n = m
        · subst hm
          rw [if_pos rfl, if_pos hlt] at hsub'
          exact .inl ⟨rfl, (Option.some.inj hsub').symm⟩
        · rw [if_neg hm] at hsub'
          exact .inr ⟨fun h => hm h.symm, hsub'⟩
      constructor
      -- to be closed is no part of the shape
      case internal =>
        obtain ⟨front, back, hshape, hfront, hback⟩ := h.internal
        refine ⟨front, back, ?_, hfront, hback⟩
        rw [← hshape, shape, shape, List.map_set]
        refine List.ext_getElem? fun m => ?_
        rw [List.getElem?_set]
        split
        · rename_i hm
          subst hm
          rw [List.getElem?_map, hsub, List.length_map, if_pos hlt]
          rfl
        · rfl
      case settled =>
        intro m sub' hsub' hsettled
        rcases hget m sub' hsub' with ⟨-, rfl⟩ | ⟨-, hold⟩
        · rfl
        · exact h.settled m sub' hold hsettled
      case nc =>
        intro hnc m sub' hsub'
        rcases hget m sub' hsub' with ⟨-, rfl⟩ | ⟨-, hold⟩
        · rfl
        · exact h.nc hnc m sub' hold
      -- the subscription that ends is due, the last of all
      case due =>
        intro m hm
        rw [List.length_set]
        rcases List.mem_append.1 hm with hm | hm
        · exact h.due m hm
        · cases List.mem_singleton.1 hm
          exact hlt
      case connection =>
        intro hc
        rcases List.mem_append.1 hc with hc | hc
        · exact h.connection hc
        · cases List.mem_singleton.1 hc
      case running =>
        intro hrun
        obtain ⟨hcloses, hdone, hpending, hhead⟩ := h.running hrun
        refine ⟨hcloses, hdone, fun m sub' hsub' hclosed => ?_, ?_⟩
        · -- its reaction is the one that was just added
          rcases hget m sub' hsub' with ⟨rfl, -⟩ | ⟨-, hold⟩
          · exact List.mem_append_right _ (List.mem_singleton.2 rfl)
          · exact List.mem_append_left _ (hpending m sub' hold hclosed)
        · rw [List.head?_append]
          cases hr : s.reactions.head? with
          | none => exact fun h => by cases h
          | some r =>
              rw [hr] at hhead
              exact hhead
      case halted =>
        intro hstop
        obtain ⟨hfirst, hnine, hle, hlt', hgone, hdone⟩ := h.halted hstop
        refine ⟨hfirst, hnine, hle.trans (List.length_set ..).ge, hlt',
          fun m sub' hm hsub' => ?_, fun r hr =>
          ⟨(hdone r hr).1, fun m hm sub' hsub' => ?_⟩⟩
        · -- the subscriptions that a stop waits for are closed or drained
          rcases hget m sub' hsub' with ⟨-, rfl⟩ | ⟨-, hold⟩
          · exact .inl rfl
          · exact hgone m sub' hm hold
        · rcases hget m sub' hsub' with ⟨rfl, rfl⟩ | ⟨-, hold⟩
          · exact (hdone r hr).2 m hm sub hsub
          · exact (hdone r hr).2 m hm sub' hold

theorem closed_closeSub {m : Nat} {sub' : Sub} (hsub' : (s.closeSub n).subs[m]? = some sub')
    (h : m = n ∨ ∀ sub : Sub, s.subs[m]? = some sub → sub.closed = true) : sub'.closed = true := by
  have hcases := closeSub_cases n s
  generalize s.closeSub n = s' at hcases hsub'
  cases hcases with
  | idle hidle =>
      rcases h with rfl | h
      · exact hidle sub' hsub'
      · exact h sub' hsub'
  | ends sub hsub hopen =>
      have hlt := (List.getElem?_eq_some_iff.1 hsub).1
      simp only [List.getElem?_set] at hsub'
      by_cases hm : n = m
      · subst hm
        rw [if_pos rfl, if_pos hlt] at hsub'
        cases hsub'
        rfl
      · rw [if_neg hm] at hsub'
        exact h.elim (fun h => absurd h.symm hm) fun h => h sub' hsub'

theorem length_closeSub (n : Nat) (s : LiveService E) :
    (s.closeSub n).subs.length = s.subs.length := by
  have hcases := closeSub_cases n s
  generalize s.closeSub n = s' at hcases ⊢
  cases hcases with
  | idle hidle => rfl
  | ends sub hsub hopen => exact List.length_set ..

theorem closed_foldl (ns : List Nat) : ∀ (s : LiveService E) (m : Nat) (sub' : Sub),
    (ns.foldl (fun s n => s.closeSub n) s).subs[m]? = some sub' →
      (m ∈ ns ∨ ∀ sub : Sub, s.subs[m]? = some sub → sub.closed = true) → sub'.closed = true := by
  induction ns with
  | nil => exact fun s m sub' hsub' h => (h.resolve_left List.not_mem_nil) sub' hsub'
  | cons n ns ih =>
      intro s m sub' hsub' h
      refine ih (s.closeSub n) m sub' hsub' ?_
      by_cases hm : m ∈ ns
      · exact .inl hm
      · refine .inr fun sub hsub => closed_closeSub hsub ?_
        rcases h with h | h
        · exact .inl ((List.mem_cons.1 h).resolve_right hm)
        · exact .inr h

theorem length_foldl (ns : List Nat) : ∀ s : LiveService E,
    (ns.foldl (fun s n => s.closeSub n) s).subs.length = s.subs.length := by
  induction ns with
  | nil => exact fun _ => rfl
  | cons n ns ih => exact fun s => (ih _).trans (length_closeSub n s)

theorem Inv.foldl {i : Identity} (ns : List Nat) : ∀ {s : LiveService E}, Inv i s →
    Inv i (ns.foldl (fun s n => s.closeSub n) s) := by
  induction ns with
  | nil => exact fun h => h
  | cons n ns ih => exact fun h => ih (h.closeSub n)

/-- **The end of the connection** ends all subscriptions. -/
theorem Inv.disconnect {i : Identity} (h : Inv i s) :
    Inv i { (List.range s.subs.length).foldl (fun s n => s.closeSub n) s with
      ncClosed := true } := by
  obtain ⟨hinternal, hsettled, -, hdue, -, hrunning, hhalted⟩ := h.foldl (List.range s.subs.length)
  refine ⟨hinternal, hsettled, fun _ n sub' hsub' => ?_, hdue, fun _ => rfl, fun hrun => ?_,
    fun hstop => ?_⟩
  · refine closed_foldl _ s n sub' hsub' (.inl (List.mem_range.2 ?_))
    exact (length_foldl (List.range s.subs.length) s) ▸ (List.getElem?_eq_some_iff.1 hsub').1
  · obtain ⟨hcloses, hdone, hpending, hhead⟩ := hrunning hrun
    exact ⟨hcloses, hdone, hpending, hhead⟩
  · obtain ⟨hfirst, hnine, hle, hlt, hgone, hdone⟩ := hhalted hstop
    exact ⟨hfirst, hnine, hle, hlt, hgone, hdone⟩

/-- The continuation of the connection comes behind those of the subscriptions. -/
theorem Inv.ncSettle {i : Identity} (h : Inv i s) (hnc : s.ncClosed = true) :
    Inv i { s with ncSettled := true, reactions := s.reactions ++ [.connection] } where
  internal := h.internal
  settled := h.settled
  nc := h.nc
  due n hn := by
    rcases List.mem_append.1 hn with hn | hn
    · exact h.due n hn
    · cases List.mem_singleton.1 hn
  connection _ := hnc
  running hrun := by
    obtain ⟨hcloses, hdone, hpending, hhead⟩ := h.running hrun
    refine ⟨hcloses, hdone, fun n sub hsub hclosed => List.mem_append_left _
      (hpending n sub hsub hclosed), ?_⟩
    -- the first subscription has ended, and its continuation is due
    have hsub :=
      List.getElem?_eq_getElem (Nat.lt_of_lt_of_le (by decide) h.nine_le : 0 < s.subs.length)
    have hmem := hpending 0 _ hsub (h.nc hnc 0 _ hsub)
    rw [List.head?_append]
    cases hr : s.reactions with
    | nil =>
        rw [hr] at hmem
        cases hmem
    | cons r rs =>
        rw [hr] at hhead
        exact hhead
  halted hstop := by
    obtain ⟨hfirst, hnine, hle, hlt, hgone, hdone⟩ := h.halted hstop
    exact ⟨hfirst, hnine, hle, hlt, hgone, hdone⟩

/-- A service that is stopped can forget what was about to stop it. -/
theorem Inv.forget {i : Identity} {r : Reaction} {rs : List Reaction} (h : Inv i s)
    (hstopped : s.stopped = true) (hr : s.reactions = r :: rs) :
    Inv i { s with reactions := rs } := by
  refine ⟨h.internal, h.settled, h.nc, fun n hn => h.due n (hr ▸ List.mem_cons_of_mem r hn),
    fun hc =>
    h.connection (hr ▸ List.mem_cons_of_mem r hc), fun hrun => ?_, fun hstop => ?_⟩
  · exact absurd (hstopped.symm.trans hrun) (by decide)
  · obtain ⟨hfirst, hnine, hle, hlt, hgone, hdone⟩ := h.halted hstop
    exact ⟨hfirst, hnine, hle, hlt, hgone, hdone⟩

theorem stopped_close (cause : Cause E) (s : LiveService E) : (s.close cause).stopped = true := by
  rw [LiveService.close]
  split
  · assumption
  · rfl

theorem reactions_close (cause : Cause E) (s : LiveService E) :
    (s.close cause).reactions = s.reactions := by
  rw [LiveService.close]
  split <;> rfl

/-- **A continuation** stops the service, or it is stopped already. -/
theorem Inv.react {i : Identity} {r : Reaction} {rs : List Reaction} (h : Inv i s)
    (hr : s.reactions = r :: rs) : Inv i (LiveService.react { s with reactions := rs } r) := by
  by_cases hstopped : s.stopped = true
  · have hrest := h.forget hstopped hr
    cases r with
    | subscription n =>
        rw [LiveService.react, if_pos hstopped]
        exact hrest
    | connection =>
        exact hrest.close .connection fun hrun => absurd (hstopped.symm.trans hrun) (by decide)
  · have hrun := Bool.eq_false_iff.2 hstopped
    obtain ⟨hcloses, hdone, hpending, hhead⟩ := h.running hrun
    cases r with
    | connection =>
        rw [hr] at hhead
        exact absurd rfl hhead
    | subscription n =>
        obtain ⟨sub, hsub⟩ : ∃ sub, s.subs[n]? = some sub :=
          ⟨_, List.getElem?_eq_getElem (h.due n (hr ▸ List.mem_cons_self))⟩
        rw [LiveService.react, if_neg hstopped]
        simp only [hsub]
        -- it is the call of `close` that the reaction stands for, with the queue as it is behind it
        have hclose := h.close (.subscription sub.subject) fun _ => by rintro ⟨⟩
        have hforget := hclose.forget (stopped_close _ s) ((reactions_close _ s).trans hr)
        rw [LiveService.close, if_neg hstopped] at hforget ⊢
        exact hforget

/-! ## Steps -/

/-- **What one event does.** -/
inductive Step (s : LiveService E) : Event E → LiveService E → Prop where
  | addEndpoint (subject queue : Text) (hnc : s.ncClosed = false) :
      Step s (.addEndpoint subject queue)
        { s with subs := s.subs ++ [⟨subject, queue, none, false, false, false⟩] }
  | stop (err : Option E) : Step s (.stop err) (s.close (.given err))
  | permission (n : Nat) (err : E) (h : n ∈ s.opened) :
      Step s (.permission n err) ((s.close (.given (some err))).closeSub n)
  | subClosed (n : Nat) (h : n ∈ s.opened) : Step s (.subClosed n) (s.closeSub n)
  | subDrained (n : Nat) : Step s (.subDrained n) { s with subs := s.subs.modify n Sub.drain }
  | flushed (n : Nat) : Step s (.flushed n) ((s.closeSub n).settle n)
  | ncClosed (hnc : s.ncClosed = false) :
      Step s .ncClosed { (List.range s.subs.length).foldl (fun s n => s.closeSub n) s with
        ncClosed := true }
  | ncSettled (hnc : s.ncClosed = true) :
      Step s .ncSettled { s with ncSettled := true, reactions := s.reactions ++ [.connection] }
  | react (r : Reaction) (rs : List Reaction) (h : s.reactions = r :: rs) :
      Step s .react (LiveService.react { s with reactions := rs } r)
  | resolve (hstopped : s.stopped = true) (hdone : s.done = none)
      (hall : ∀ n ∈ s.awaited, (s.subs[n]?).any Sub.settled) :
      Step s .resolve { s with done := some s.reason }

theorem step_of_eq {e : Event E} (h : s.step e = some s') : Step s e s' := by
  cases e with
  | addEndpoint subject queue =>
      obtain ⟨hnc, heq⟩ := Option.ite_none_left_eq_some.1 h
      exact Option.some.inj heq ▸ .addEndpoint subject queue (Bool.eq_false_iff.2 hnc)
  | stop err =>
      cases h
      exact .stop err
  | permission n err =>
      obtain ⟨hn, heq⟩ := Option.ite_none_right_eq_some.1 h
      exact Option.some.inj heq ▸ .permission n err hn
  | subClosed n =>
      obtain ⟨hn, heq⟩ := Option.ite_none_right_eq_some.1 h
      exact Option.some.inj heq ▸ .subClosed n hn
  | subDrained n =>
      simp only [step] at h
      cases hsub : s.subs[n]? with
      | none => simp only [hsub, reduceCtorEq] at h
      | some sub =>
          simp only [hsub] at h
          obtain ⟨hnc, heq⟩ := Option.ite_none_left_eq_some.1 h
          -- the drain changes the subscription where it is
          have hset : s.subs.set n sub.drain = s.subs.modify n Sub.drain := by
            rw [List.modify_eq_set_getElem?, hsub]
            rfl
          exact Option.some.inj heq ▸ hset ▸ .subDrained n
  | flushed n =>
      simp only [step] at h
      cases hsub : s.subs[n]? with
      | none => simp only [hsub, reduceCtorEq] at h
      | some sub =>
          simp only [hsub] at h
          obtain ⟨-, heq⟩ := Option.ite_none_right_eq_some.1 h
          exact Option.some.inj heq ▸ .flushed n
  | ncClosed =>
      obtain ⟨hnc, heq⟩ := Option.ite_none_left_eq_some.1 h
      exact Option.some.inj heq ▸ .ncClosed (Bool.eq_false_iff.2 hnc)
  | ncSettled =>
      obtain ⟨hnc, heq⟩ := Option.ite_none_right_eq_some.1 h
      exact Option.some.inj heq ▸ .ncSettled (Bool.and_eq_true_iff.1 hnc).1
  | react =>
      simp only [step] at h
      cases hr : s.reactions with
      | nil => simp only [hr, reduceCtorEq] at h
      | cons r rs =>
          simp only [hr] at h
          exact Option.some.inj h ▸ .react r rs hr
  | resolve =>
      obtain ⟨⟨hstopped, hdone, hall⟩, heq⟩ := Option.ite_none_right_eq_some.1 h
      exact Option.some.inj heq ▸ .resolve hstopped hdone hall

/-- **Endpoints that are added** are no internal handlers. -/
theorem Inv.addEndpoint {i : Identity} (h : Inv i s) (subject queue : Text)
    (hnc : s.ncClosed = false) :
    Inv i { s with subs := s.subs ++ [⟨subject, queue, none, false, false, false⟩] } := by
  have hget : ∀ n sub, (s.subs ++ [⟨subject, queue, none, false, false, false⟩])[n]? = some sub →
      s.subs[n]? = some sub ∨
      (n = s.subs.length ∧ sub = ⟨subject, queue, none, false, false, false⟩) := by
    intro n sub hsub
    rw [List.getElem?_append] at hsub
    split at hsub
    · exact .inl hsub
    · obtain ⟨hlt, rfl⟩ := List.getElem?_eq_some_iff.1 hsub
      rw [List.length_singleton] at hlt
      exact .inr ⟨by omega, List.getElem_singleton _⟩
  constructor
  case internal =>
    obtain ⟨front, back, hshape, hfront, hback⟩ := h.internal
    refine ⟨front, back ++ [(subject, none)], ?_, hfront, fun x hx => ?_⟩
    · rw [shape, List.map_append, ← List.append_assoc, ← hshape]
      rfl
    · rcases List.mem_append.1 hx with hx | hx
      · exact hback x hx
      · rw [List.mem_singleton.1 hx]
  case settled =>
    intro n sub hsub hsettled
    rcases hget n sub hsub with hold | ⟨-, rfl⟩
    · exact h.settled n sub hold hsettled
    · cases hsettled
  case nc => exact fun hclosed => absurd (hclosed.symm.trans hnc) (by decide)
  case due =>
    intro n hn
    rw [List.length_append]
    exact Nat.lt_add_right _ (h.due n hn)
  case connection => exact h.connection
  case running =>
    intro hrun
    obtain ⟨hcloses, hdone, hpending, hhead⟩ := h.running hrun
    refine ⟨hcloses, hdone, fun n sub hsub hclosed => ?_, hhead⟩
    rcases hget n sub hsub with hold | ⟨-, rfl⟩
    · exact hpending n sub hold hclosed
    · cases hclosed
  case halted =>
    intro hstop
    obtain ⟨hfirst, hnine, hle, hlt, hgone, hdone⟩ := h.halted hstop
    refine ⟨hfirst, hnine, hle.trans (by rw [List.length_append]; exact Nat.le_add_right _ _), hlt,
      fun n sub hn hsub => ?_, fun r hr => ⟨(hdone r hr).1, fun n hn sub hsub => ?_⟩⟩
    · rcases hget n sub hsub with hold | ⟨hlength, -⟩
      · exact hgone n sub hn hold
      · -- an endpoint that is added behind the stop is not one that the stop drains
        have hn : n < s.atStop := hn
        omega
    · rcases hget n sub hsub with hold | ⟨hlength, -⟩
      · exact (hdone r hr).2 n hn sub hold
      · have hbound := hlt n hn
        omega

theorem Inv.settle {i : Identity} (h : Inv i s) (n : Nat) : Inv i ((s.closeSub n).settle n) := by
  refine (h.closeSub n).same
    (Same.modify _ n fun sub hsub => ⟨rfl, rfl, rfl, fun _ => rfl, fun _ => .inr ?_⟩)
  exact closed_closeSub hsub (.inl rfl)

theorem Inv.step {i : Identity} {e : Event E} (h : Inv i s) (hstep : Step s e s') : Inv i s' := by
  cases hstep with
  | addEndpoint subject queue hnc => exact h.addEndpoint subject queue hnc
  | stop err => exact h.close (.given err) fun _ => by rintro ⟨⟩
  | permission n err hn => exact (h.close (.given (some err)) fun _ => by rintro ⟨⟩).closeSub n
  | subClosed n hn => exact h.closeSub n
  | subDrained n =>
      refine h.same (Same.modify _ n fun sub _ => ?_)
      obtain ⟨hsubject, hverb, hclosed, hsettled⟩ := drain_fields sub
      exact ⟨hsubject, hverb, hclosed, fun h => hsettled.trans h,
        fun h => .inl (hsettled.symm.trans h)⟩
  | flushed n => exact h.settle n
  | ncClosed hnc => exact h.disconnect
  | ncSettled hnc => exact h.ncSettle hnc
  | react r rs hr => exact h.react hr
  | resolve hstopped hdone hall =>
      refine ⟨h.internal, h.settled, h.nc, h.due, h.connection, fun hrun => ?_, fun _ => ?_⟩
      · exact absurd (hstopped.symm.trans hrun) (by decide)
      · obtain ⟨hfirst, hnine, hle, hlt, hgone, -⟩ := h.halted hstopped
        refine ⟨hfirst, hnine, hle, hlt, hgone, fun r hr => ?_⟩
        cases hr
        refine ⟨rfl, fun n hn sub hsub => ?_⟩
        have hany := hall n hn
        rw [hsub] at hany
        exact hany

/-- The subscriptions of `start()`. -/
theorem forall₂_internalSub :
    ∀ {qs : List Question} {subs : List Sub}, qs.mapM internalSub = .ok subs →
    List.Forall₂ Answers qs (subs.map fun sub => (sub.subject, sub.verb)) ∧
      ∀ sub ∈ subs, sub.closed = false ∧ sub.settled = false := by
  intro qs
  induction qs with
  | nil =>
      intro subs h
      cases h
      exact ⟨.nil, fun sub hsub => absurd hsub List.not_mem_nil⟩
  | cons q qs ih =>
      intro subs h
      rw [List.mapM_cons, internalSub] at h
      cases hq : q.subject with
      | error err =>
          rw [hq] at h
          cases h
      | ok subject =>
          rw [hq] at h
          cases hqs : qs.mapM internalSub with
          | error err =>
              rw [hqs] at h
              cases h
          | ok rest =>
              rw [hqs] at h
              cases h
              obtain ⟨hall, hfresh⟩ := ih hqs
              refine ⟨.cons ⟨hq, rfl⟩ hall, fun sub hsub => ?_⟩
              rcases List.mem_cons.1 hsub with rfl | hsub
              · exact ⟨rfl, rfl⟩
              · exact hfresh sub hsub

theorem inv_start {i : Identity} (h : start i = .ok s) : Inv i s := by
  rw [start] at h
  cases hsubs : (questions i).mapM internalSub with
  | error err =>
      rw [hsubs] at h
      cases h
  | ok subs =>
      rw [hsubs] at h
      cases h
      obtain ⟨hall, hfresh⟩ := forall₂_internalSub hsubs
      constructor
      case internal =>
        exact ⟨_, [], (List.append_nil _).symm, hall, fun x hx => absurd hx List.not_mem_nil⟩
      case settled =>
        intro n sub hsub hsettled
        rw [(hfresh sub (List.mem_of_getElem? hsub)).2] at hsettled
        cases hsettled
      case nc =>
        intro hnc
        cases hnc
      case due => exact fun n hn => absurd hn List.not_mem_nil
      case connection => exact fun hc => absurd hc List.not_mem_nil
      case running =>
        refine fun _ => ⟨rfl, rfl, fun n sub hsub hclosed => ?_, by rintro ⟨⟩⟩
        rw [(hfresh sub (List.mem_of_getElem? hsub)).1] at hclosed
        cases hclosed
      case halted =>
        intro hstop
        cases hstop

/-- **What `stopped` tells.** In every run: it resolves with what was behind the first call of
`close`, and this is never the connection; what the service had when it was stopped has ended by
then. A service that is not stopped, with no continuation due, has all its subscriptions and its
connection. -/
theorem stopped_exact (i : Identity) (es : List (Event E)) (s₀ s : LiveService E)
    (hstart : start i = .ok s₀) (hrun : run step s₀ es = some s) :
    (∀ r ∈ s.done, (∃ cause, s.closes.head? = some cause ∧ cause ≠ .connection ∧ r = cause.reason) ∧
      ∀ (n : Nat) (sub : Sub), n < s.atStop → s.subs[n]? = some sub → sub.closed = true) ∧
    (s.stopped = false → s.reactions = [] →
      s.ncClosed = false ∧ s.closes = [] ∧ ∀ sub ∈ s.subs, sub.closed = false) := by
  have hinv : Inv i s :=
    invariant_run (fun _ _ _ h hstep => h.step (step_of_eq hstep)) hrun (inv_start hstart)
  constructor
  · intro r hr
    cases hstopped : s.stopped with
    | false =>
        rw [(hinv.running hstopped).done] at hr
        cases hr
    | true =>
        obtain ⟨⟨cause, hfirst, hne, hreason⟩, -, -, -, hgone, hdone⟩ := hinv.halted hstopped
        obtain ⟨hr, hall⟩ := hdone r hr
        refine ⟨⟨cause, hfirst, hne, hr.trans hreason⟩, fun n sub hn hsub => ?_⟩
        exact (hgone n sub hn hsub).elim (fun h => h) fun hmem =>
          hinv.settled n sub hsub (hall n hmem sub hsub)
  · intro hrunning hquiet
    obtain ⟨hcloses, -, hpending, -⟩ := hinv.running hrunning
    have hopen : ∀ (n : Nat) (sub : Sub), s.subs[n]? = some sub → sub.closed = false := by
      intro n sub hsub
      by_contra hclosed
      have hmem := hpending n sub hsub (eq_true_of_ne_false hclosed)
      rw [hquiet] at hmem
      cases hmem
    refine ⟨?_, hcloses, fun sub hsub => ?_⟩
    · by_contra hnc
      have hsub :=
        List.getElem?_eq_getElem (Nat.lt_of_lt_of_le (by decide) hinv.nine_le : 0 < s.subs.length)
      have hclosed := hinv.nc (eq_true_of_ne_false hnc) 0 _ hsub
      rw [hopen 0 _ hsub] at hclosed
      cases hclosed
    · obtain ⟨n, hn⟩ := List.getElem?_of_mem hsub
      exact hopen n sub hn

end

/-! ## Discovery -/

/-- What the handlers of a service answer if none of them has ended. -/
def answered (xs : List (Text × Option ServiceVerb)) (subject : Text) : List ServiceVerb :=
  (xs.filter fun x => subjectMatches x.1 subject).filterMap Prod.snd

section

variable {s : LiveService E} {i : Identity} {q : Question} {subject : Text}

theorem answers_sublist (s : LiveService E) (subject : Text) :
    (s.answers subject).Sublist (answered s.shape subject) := by
  rw [answers, answered, shape, List.filter_map, List.filterMap_map]
  have himp : ∀ sub : Sub, (!sub.closed && subjectMatches sub.subject subject) = true →
      subjectMatches sub.subject subject = true := fun sub h => (Bool.and_eq_true_iff.1 h).2
  exact (List.monotone_filter_right s.subs himp).filterMap _

theorem answers_of_open (h : ∀ sub ∈ s.subs, sub.closed = false) (subject : Text) :
    s.answers subject = answered s.shape subject := by
  rw [answers, answered, shape, List.filter_map, List.filterMap_map]
  have heq : s.subs.filter (fun sub => !sub.closed && subjectMatches sub.subject subject) =
      s.subs.filter ((fun x : Text × Option ServiceVerb => subjectMatches x.1 subject) ∘
        fun sub => (sub.subject, sub.verb)) := by
    refine List.filter_congr fun sub hsub => ?_
    rw [h sub hsub, Bool.not_false, Bool.true_and]
    rfl
  rw [heq]
  rfl

/-- **A question** reaches the handler it is meant for. -/
theorem answered_front (hq : q.subject = .ok subject) {qs : List Question}
    {front : List (Text × Option ServiceVerb)} (h : List.Forall₂ Answers qs front) :
    answered front subject = (qs.filter (· = q)).map Question.verb := by
  induction h with
  | nil => rfl
  | @cons q' x qs front hx hrest ih =>
      rw [answered] at ih ⊢
      have hmatch : subjectMatches x.1 subject = true ↔ q' = q := by
        rw [subjectMatches_control hx.1]
        constructor
        · rintro rfl
          exact Question.subject_injective hx.1 hq
        · rintro rfl
          exact Except.ok.inj (hx.1.symm.trans hq)
      by_cases heq : q' = q
      · rw [List.filter_cons, if_pos (hmatch.2 heq), List.filterMap_cons, hx.2, ih,
          List.filter_cons, if_pos (decide_eq_true heq), List.map_cons]
      · rw [List.filter_cons, if_neg fun h => heq (hmatch.1 h), ih, List.filter_cons,
          if_neg fun h => heq (of_decide_eq_true h)]

/-- The answers to a question that a service may give. -/
def expected (i : Identity) (q : Question) : List ServiceVerb := if q.About i then [q.verb] else []

theorem filter_questions (hq : q.subject = .ok subject) (i : Identity) :
    ((questions i).filter (· = q)).map Question.verb = expected i q := by
  have hnamed := (controlSubject_eq_ok_iff.1 hq).1.named
  have hmem : q ∈ questions i ↔ q.About i := mem_questions.trans (and_iff_left hnamed)
  rw [List.filter_eq, List.map_replicate, expected, (nodup_questions i).count]
  by_cases habout : q.About i
  · rw [if_pos (hmem.2 habout), if_pos habout]
    rfl
  · rw [if_neg fun h => habout (hmem.1 h), if_neg habout]
    rfl

theorem Inv.answered_eq (h : Inv i s) (hq : q.subject = .ok subject) :
    answered s.shape subject = expected i q := by
  obtain ⟨front, back, hshape, hfront, hback⟩ := h.internal
  rw [hshape, answered, List.filter_append, List.filterMap_append, ← answered,
    answered_front hq hfront, filter_questions hq i, List.append_right_eq_self,
    List.filterMap_eq_nil_iff]
  exact fun x hx => hback x (List.mem_of_mem_filter hx)

/-- A service that is done does not answer. -/
theorem Inv.answers_done (h : Inv i s) (hdone : s.done ≠ none) (subject : Text) :
    s.answers subject = [] := by
  obtain ⟨r, hr⟩ := Option.ne_none_iff_exists'.1 hdone
  rw [answers, List.filterMap_eq_nil_iff]
  intro sub hsub
  obtain ⟨hmem, hopen⟩ := List.mem_filter.1 hsub
  obtain ⟨n, hn⟩ := List.getElem?_of_mem hmem
  cases hstopped : s.stopped with
  | false =>
      rw [(h.running hstopped).done] at hdone
      exact absurd rfl hdone
  | true =>
      obtain ⟨-, hnine, -, -, hgone, hsettled⟩ := h.halted hstopped
      by_cases hlt : n < s.atStop
      · have hclosed : sub.closed = true := (hgone n sub hlt hn).elim (fun h => h) fun hwait =>
          h.settled n sub hn ((hsettled r hr).2 n hwait sub hn)
        rw [hclosed] at hopen
        cases hopen
      · -- it was added behind the stop, so that it is no internal handler
        obtain ⟨front, back, hshape, hfront, hback⟩ := h.internal
        have hlength : front.length = 9 := hfront.length_eq.symm
        have hget : s.shape[n]? = some (sub.subject, sub.verb) := by
          rw [shape, List.getElem?_map, hn]
          rfl
        rw [hshape, List.getElem?_append_right (by omega)] at hget
        exact hback _ (List.mem_of_getElem? hget)

/-- A running service answers what it is asked. -/
theorem Inv.answers_running (h : Inv i s) (hrun : s.stopped = false) (hquiet : s.reactions = [])
    (hq : q.subject = .ok subject) : s.answers subject = expected i q := by
  have hopen : ∀ sub ∈ s.subs, sub.closed = false := by
    intro sub hsub
    obtain ⟨n, hn⟩ := List.getElem?_of_mem hsub
    by_contra hclosed
    have hmem := (h.running hrun).pending n sub hn (eq_true_of_ne_false hclosed)
    rw [hquiet] at hmem
    cases hmem
  rw [answers_of_open hopen, h.answered_eq hq]

end

/-- The names of a service are no reason not to start. -/
theorem exists_start (i : Identity) : ∃ s : LiveService E, start i = .ok s := by
  have hall : ∀ qs : List Question, (∀ q ∈ qs, q ∈ questions i) →
      ∃ subs, qs.mapM internalSub = .ok subs := by
    intro qs
    induction qs with
    | nil => exact fun _ => ⟨[], rfl⟩
    | cons q qs ih =>
        intro hmem
        obtain ⟨subject, hq⟩ := exists_subject (hmem q List.mem_cons_self)
        obtain ⟨subs, hsubs⟩ := ih fun q' hq' => hmem q' (List.mem_cons_of_mem q hq')
        rw [List.mapM_cons, internalSub, hq, hsubs]
        exact ⟨_, rfl⟩
  obtain ⟨subs, hsubs⟩ := hall (questions i) fun q hq => hq
  rw [start, hsubs]
  exact ⟨_, rfl⟩

/-- A service of a system, and how it came to its state. -/
structure Deployed (E : Type) where
  identity : Identity
  service : LiveService E
  first : LiveService E
  events : List (Event E)
  started : start identity = .ok first
  ran : run step first events = some service

theorem Deployed.inv (d : Deployed E) : Inv d.identity d.service :=
  invariant_run (fun _ _ _ h hstep => h.step (step_of_eq hstep)) d.ran (inv_start d.started)

/-- It is not stopped, and nothing is about to stop it. -/
def Quiet (s : LiveService E) : Prop := s.stopped = false ∧ s.reactions = []

instance (s : LiveService E) : Decidable s.Quiet := inferInstanceAs (Decidable (_ ∧ _))

/-- A service that was just started. -/
theorem quiet_of_start {i : Identity} {s : LiveService E} (h : start i = .ok s) : s.Quiet := by
  rw [start] at h
  split at h
  · cases h
  · cases h
    exact ⟨rfl, rfl⟩

theorem done_of_start {i : Identity} {s : LiveService E} (h : start i = .ok s) : s.done = none := by
  rw [start] at h
  split at h
  · cases h
  · cases h
    rfl

/-- The answers to what is sent to a subject: the id and the verb of each. The handlers do not share
a queue. -/
def replies (fleet : List (Deployed E)) (subject : Text) : List (Text × ServiceVerb) :=
  fleet.flatMap fun d => (d.service.answers subject).map fun verb => (d.identity.id.text, verb)

/-- **Discovery.** Whatever the services of a system went through: a question has one answer of each
running service that it is about, and besides at most one each of those that are on their way to be
stopped. -/
theorem discovery_exact (fleet : List (Deployed E)) (q : Question) (subject : Text)
    (hq : q.subject = .ok subject) :
    ((fleet.filter fun d => q.About d.identity ∧ d.service.Quiet).map fun d =>
      (d.identity.id.text, q.verb)).Sublist
        (replies fleet subject) ∧
      (replies fleet subject).Sublist
        ((fleet.filter fun d => q.About d.identity ∧ d.service.done.isNone).map fun d =>
          (d.identity.id.text, q.verb)) := by
  induction fleet with
  | nil => exact ⟨List.Sublist.refl _, List.Sublist.refl _⟩
  | cons d fleet ih =>
      have hinv := d.inv
      rw [replies, List.flatMap_cons, ← replies, List.filter_cons, List.filter_cons]
      have hmost : (d.service.answers subject).Sublist (expected d.identity q) :=
        hinv.answered_eq hq ▸ answers_sublist d.service subject
      constructor
      · split
        · rename_i hquiet
          obtain ⟨habout, hrun, hreactions⟩ := of_decide_eq_true hquiet
          rw [hinv.answers_running hrun hreactions hq, expected, if_pos habout]
          exact ih.1.cons_cons _
        · exact ih.1.trans (List.sublist_append_right _ _)
      · by_cases hdone : d.service.done = none
        · by_cases habout : q.About d.identity
          · rw [if_pos (decide_eq_true ⟨habout, by rw [hdone]; rfl⟩), List.map_cons]
            rw [expected, if_pos habout] at hmost
            exact (hmost.map _).append ih.2
          · rw [if_neg fun h => habout (of_decide_eq_true h).1]
            rw [expected, if_neg habout] at hmost
            rw [List.sublist_nil.1 hmost, List.map_nil, List.nil_append]
            exact ih.2
        · rw [if_neg fun h => hdone (Option.isNone_iff_eq_none.1 (of_decide_eq_true h).2),
            hinv.answers_done hdone subject, List.map_nil, List.nil_append]
          exact ih.2

/-- A service of which the tests have many. -/
def test : Identity :=
  ⟨⟨"test".toList, List.cons_ne_nil _ _, List.all_eq_true.1 (by decide)⟩,
    ⟨"K1".toList, List.cons_ne_nil _ _, List.all_eq_true.1 (by decide)⟩⟩

/-- What happens to a service whose connection closes. -/
def closing : List (Event Nat) := [.ncClosed, .ncSettled, .react, .react, .resolve]

theorem exists_closed :
    ∃ s₀ s : LiveService Nat, start test = .ok s₀ ∧ run step s₀ closing = some s ∧
    s.done = some (some (.required "$SRV.PING".toList)) := by
  have hdone : ((start test).toOption.bind fun s₀ : LiveService Nat => run step s₀ closing).bind
      done =
      some (some (.required "$SRV.PING".toList)) := by
    decide +kernel
  obtain ⟨s, hrun, hdone⟩ := Option.bind_eq_some_iff.1 hdone
  obtain ⟨s₀, hstart, hrun⟩ := Option.bind_eq_some_iff.1 hrun
  refine ⟨s₀, s, ?_, hrun, hdone⟩
  cases h : (start test : Except String (LiveService Nat)) with
  | error err =>
      rw [h] at hstart
      cases hstart
  | ok s =>
      rw [h] at hstart
      cases hstart
      rfl

/-- The connection closes under a running service. -/
theorem stopped_exact_connection :
    ∃ s₀ s : LiveService Nat, start test = .ok s₀ ∧
      run step s₀ [.ncClosed, .ncSettled, .react, .react, .resolve] = some s ∧
      s.done = some (some (.required "$SRV.PING".toList)) ∧
      ∃ cause, s.closes.head? = some cause ∧ cause ≠ .connection ∧
        some (.required "$SRV.PING".toList) = cause.reason := by
  obtain ⟨s₀, s, hstart, hrun, hdone⟩ := exists_closed
  exact ⟨s₀, s, hstart, hrun, hdone, ((stopped_exact test _ s₀ s hstart hrun).1 _ hdone).1⟩

/-- A service of another name. -/
def another : Identity :=
  ⟨⟨"another".toList, List.cons_ne_nil _ _, List.all_eq_true.1 (by decide)⟩,
    ⟨"K2".toList, List.cons_ne_nil _ _, List.all_eq_true.1 (by decide)⟩⟩

/-- The services of a name are asked: of three, one has another name, and the connection of one is
closed. -/
theorem discovery_exact_ping :
    ∃ fleet : List (Deployed Nat), fleet.map Deployed.identity = [test, another, test] ∧
      fleet.map (fun d => d.events.length) = [0, 0, 5] ∧
      replies fleet "$SRV.PING.test".toList = [("K1".toList, .PING)] := by
  obtain ⟨s, hstart⟩ := exists_start (E := Nat) test
  obtain ⟨other, hother⟩ := exists_start (E := Nat) another
  obtain ⟨s₀, closed, hstart₀, hrun, hdone⟩ := exists_closed
  have hd :=
    discovery_exact [⟨test, s, s, [], hstart, rfl⟩, ⟨another, other, other, [], hother, rfl⟩,
    ⟨test, closed, s₀, closing, hstart₀, hrun⟩] ⟨.PING, "test".toList, []⟩
    "$SRV.PING.test".toList rfl
  have habout : (⟨.PING, "test".toList, []⟩ : Question).About test := ⟨.inr rfl, .inl rfl⟩
  have hnot : ¬ (⟨.PING, "test".toList, []⟩ : Question).About another := by decide
  have hgone : closed.done.isNone = false := by rw [hdone]; rfl
  have hstopped : ¬ closed.Quiet := fun hquiet => by
    have hinv : Inv test closed :=
      invariant_run (fun _ _ _ h hstep => h.step (step_of_eq hstep)) hrun (inv_start hstart₀)
    rw [(hinv.running hquiet.1).done] at hdone
    cases hdone
  simp only [List.filter_cons, habout, hnot, quiet_of_start hstart, done_of_start hstart,
    hgone, hstopped, List.filter_nil, List.map_cons, List.map_nil, and_self, and_false, false_and,
    decide_true, decide_false, if_true, Bool.false_eq_true, if_false, Option.isNone_none] at hd
  exact ⟨_, rfl, rfl, hd.2.antisymm hd.1⟩

end LiveService

end NatsClient.Service
