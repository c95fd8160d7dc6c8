import Mathlib.Data.List.Count
import NatsClient.Connection.Steps

/-!
# What a close leaves

What `_close` (`protocol.ts`) settles of the promises that wait: those of requests with and without
the mux subscription, of flushes, and of drains of subscriptions. They are settled from four places:
the map of the mux subscription, the callback of a subscription of its own, `pongs`, and the
continuation of a flush.

`_close` waits for its transport, so that other things can happen before it completes (`Closes`).
The continuations of settled promises are microtasks and run before that (`settleDrains`).

* `mapped`: with nuids that are not repeated the map has every request that waits;
* `settles_iff`: a close settles the requests in the map, and nothing else that waits.
-/

set_option autoImplicit false

namespace NatsClient.Connection

open NatsClient.Foundation

namespace Operations

/-- A promise that is waited for: that of a request over the mux subscription, of one without it, of
a flush, and of the drain of a subscription with the deferred of its flush. -/
inductive Waiter where
  | request (i : Nat)
  | requestNoMux (i : Nat)
  | flush (d : Nat)
  | drain (o d : Nat)
deriving DecidableEq, Repr

namespace Client

/-- The continuations of the drains whose flush is settled run. -/
def settleDrains (c : Client) : Client :=
  { c with
    handler := (c.handler.drains.filter fun x => c.handler.link.outcome x.2 ≠ none).foldl
      (fun h x => h.drained x.1 x.2) c.handler }

/-- The promise is not settled. -/
def waits (c : Client) : Waiter → Bool
  | .request i => (c.mux.objs[i]?).any fun r => !r.ended
  | .requestNoMux i => (c.noMux[i]?).any fun r => r.returned && r.settled.isNone
  | .flush d => d ∈ c.flushes && (c.handler.link.outcome d).isNone
  | .drain o d => c.handler.drains.any fun x => x.1 = o && x.2 = d

/-- The promise is settled. -/
def settled (c : Client) : Waiter → Bool
  | .request i => (c.mux.objs[i]?).any Mux.Request.ended
  | .requestNoMux i => (c.noMux[i]?).any fun r => r.settled.isSome
  | .flush d => (c.handler.link.outcome d).isSome
  | .drain o d => !c.handler.drains.any fun x => x.1 = o && x.2 = d

/-- `_close` is called and completes, with any events in between. -/
def Closes (nuid : Nat → String) (inboxPrefix : String) (c c' : Client) : Prop :=
  ∃ es c₁, run (step nuid inboxPrefix) c.close es = some c₁ ∧ c' = c₁.settleDrains

/-- The promises that wait are those of requests in the map of the mux subscription, and of drains
whose flush is settled. -/
structure Answered (c : Client) : Prop where
  requests : ∀ i, c.waits (.request i) = true → i ∈ c.mux.all
  noMux : ∀ i, c.waits (.requestNoMux i) = false
  flushes : ∀ d, c.waits (.flush d) = false
  drains : ∀ o d, c.waits (.drain o d) = true → c.handler.link.outcome d ≠ none

end Client

end Operations

/-! ## What the functions of a close do -/

namespace Mux.MuxSubscription

variable {s : MuxSubscription} {i : Nat} {r : Request}

/-- **Resolving with an error** ends the requests, and no others. -/
theorem ended_resolveAll {is : List Nat} (err : RequestError) (hr : s.objs[i]? = some r) :
    ∃ r', (s.resolveAll err is).objs[i]? = some r' ∧ r'.ended = (r.ended || decide (i ∈ is)) := by
  induction is generalizing s r with
  | nil => exact ⟨r, hr, by simp⟩
  | cons j is ih =>
      by_cases hij : j = i
      · subst hij
        have hf := r.follows_resolver (.error err)
        have hself : (s.resolver j (.error err)).objs[j]? = some (r.resolver (.error err)).1 := by
          rw [resolver, hr]
          exact objs_update_self hr
        obtain ⟨r', hr', hended⟩ := ih hself
        refine ⟨r', hr', ?_⟩
        rw [hended, hf.ended, r.off_error err]
        simp
      · have hother : (s.resolver j (.error err)).objs[i]? = some r := by
          rw [resolver]
          split
          · exact hr
          · exact (objs_update_ne hij).trans hr
        obtain ⟨r', hr', hended⟩ := ih hother
        refine ⟨r', hr', ?_⟩
        rw [hended]
        simp [Ne.symm hij]

/-- **A close** ends the requests in the map, and no others. -/
theorem ended_close (hr : s.objs[i]? = some r) :
    ∃ r', s.close.objs[i]? = some r' ∧ r'.ended = (r.ended || decide (i ∈ s.all)) :=
  ended_resolveAll .timeout hr

end Mux.MuxSubscription

namespace Operations.Client

variable {nuid : Nat → String} {inboxPrefix : String} {c c' : Client}

/-! ## Over all runs -/

/-- The deferreds of flushes and of drains are their own, and the drains are those of objects there
are. -/
structure Inv (c : Client) : Prop where
  owned : c.handler.link.Owned
  flushes : ∀ d ∈ c.flushes, c.handler.link.Foreign d
  drains : ∀ x ∈ c.handler.drains, x.1 < c.handler.objs.length ∧ c.handler.link.Foreign x.2

theorem inv_new (pendingLimit maxOut : Nat) : (new pendingLimit maxOut).Inv where
  owned := Link.owned_new pendingLimit maxOut
  flushes := fun d hd => by cases hd
  drains := fun x hx => by cases hx

theorem Follows.inv {P : Link.Event → Prop} (hf : Follows nuid inboxPrefix P c c') (hi : c.Inv) :
    c'.Inv where
  owned := hf.handler.owned hi.owned
  flushes := by
    intro d hd
    rcases hf.flushes hi.owned d hd with hd | hforeign
    · exact hf.handler.foreign (hi.flushes d hd)
    · exact hforeign
  drains := by
    intro x hx
    rcases hf.handler.drains hi.owned x hx with hx | hnew
    · obtain ⟨hlt, hforeign⟩ := hi.drains x hx
      exact ⟨Nat.lt_of_lt_of_le hlt hf.handler.objs, hf.handler.foreign hforeign⟩
    · exact hnew

theorem inv_run {es : List Event} {pendingLimit maxOut : Nat}
    (hrun : run (step nuid inboxPrefix) (new pendingLimit maxOut) es = some c) : c.Inv :=
  (follows_run hrun).inv (inv_new pendingLimit maxOut)

/-- **The map has every request that waits**, as long as no nuid is repeated. -/
theorem mapped (hnuid : Function.Injective nuid) {es : List Event} {pendingLimit maxOut : Nat}
    (hrun : run (step nuid inboxPrefix) (new pendingLimit maxOut) es = some c) (i : Nat)
    (hwaits : c.waits (.request i) = true) : i ∈ c.mux.all := by
  have hinv := (follows_run hrun).mux hnuid Mux.MuxSubscription.inv_new
  obtain ⟨r, hr, hopen⟩ := (Option.any_eq_true _ _).1 hwaits
  rw [Bool.not_eq_true'] at hopen
  exact hinv.mem_all.2 ⟨r, hr, hopen⟩

/-! ## The close -/

/-- The continuations of some drains run. -/
theorem drained_foldl (h : Handler) (l : List (Nat × Nat)) (hl : ∀ x ∈ l, x.1 < h.objs.length) :
    (l.foldl (fun h x => h.drained x.1 x.2) h).drains = h.drains.diff l ∧
      (l.foldl (fun h x => h.drained x.1 x.2) h).link = h.link := by
  induction l generalizing h with
  | nil => exact ⟨rfl, rfl⟩
  | cons x l ih =>
      obtain ⟨s, hs⟩ : ∃ s, h.objs[x.1]? = some s :=
        ⟨_, List.getElem?_eq_getElem (hl x List.mem_cons_self)⟩
      have hdrained : h.drained x.1 x.2 = { h.cancel x.1 s with drains := h.drains.erase x } := by
        rw [ProtocolHandler.drained, hs]
      have hrest : ∀ y ∈ l, y.1 < (h.drained x.1 x.2).objs.length := by
        intro y hy
        rw [hdrained]
        show y.1 < (h.objs.set x.1 _).length
        rw [List.length_set]
        exact hl y (List.mem_cons_of_mem x hy)
      obtain ⟨hdrains, hlink⟩ := ih (h.drained x.1 x.2) hrest
      rw [List.foldl_cons, hdrains, hlink, hdrained, List.diff_cons]
      exact ⟨rfl, rfl⟩

theorem settleDrains_spec (hi : c.Inv) :
    c.settleDrains.mux = c.mux ∧ c.settleDrains.noMux = c.noMux ∧
      c.settleDrains.flushes = c.flushes ∧ c.settleDrains.handler.link = c.handler.link ∧
      ∀ x, x ∈ c.settleDrains.handler.drains ↔ x ∈ c.handler.drains ∧
      c.handler.link.outcome x.2 = none := by
  have hfold := drained_foldl c.handler
    (c.handler.drains.filter fun x => c.handler.link.outcome x.2 ≠ none)
    fun x hx => (hi.drains x (List.mem_filter.1 hx).1).1
  refine ⟨rfl, rfl, rfl, hfold.2, fun x => ?_⟩
  rw [show c.settleDrains.handler.drains = _ from hfold.1, ← List.count_pos_iff, List.count_diff]
  by_cases hx : c.handler.link.outcome x.2 = none
  · have hout : x ∉ c.handler.drains.filter fun x => c.handler.link.outcome x.2 ≠ none := by
      intro hmem
      exact of_decide_eq_true (List.mem_filter.1 hmem).2 hx
    rw [List.count_eq_zero.2 hout, Nat.sub_zero, List.count_pos_iff]
    exact (and_iff_left hx).symm
  · have hcount : (c.handler.drains.filter fun x => c.handler.link.outcome x.2 ≠ none).count x =
        c.handler.drains.count x := List.count_filter (decide_eq_true hx)
    rw [hcount, Nat.sub_self]
    exact ⟨fun h => absurd h (Nat.lt_irrefl 0), fun h => absurd h.2 hx⟩

/-- What `_close` itself does. -/
theorem close_spec (hopen : c.handler.link.closed = false) :
    c.close.mux = c.mux.close ∧ c.close.noMux = c.noMux ∧ c.close.flushes = c.flushes ∧
      c.close.handler.drains = c.handler.drains ∧
      ∀ d, c.handler.link.Foreign d →
      c.close.handler.link.outcome d = c.handler.link.outcome d := by
  have hclosed : c.handler.link.close.closed = true := by
    rw [Link.close, hopen, if_neg Bool.false_ne_true]
  have hcall : c.handler.call .close =
      { c.handler.closeSubscriptions with link := c.handler.link.close } := by
    show c.handler.setLink c.handler.link.close = _
    rw [ProtocolHandler.setLink, hclosed, hopen]
    rfl
  have hclose : c.close = { c with
      handler := { c.handler.closeSubscriptions with link := c.handler.link.close }
      mux := c.mux.close } := by
    rw [close, setHandler, hcall]
    simp only [hclosed, hopen, Bool.not_false, Bool.and_true, if_true]
  rw [hclose]
  exact ⟨rfl, rfl, rfl, rfl, fun d hd => Link.outcome_close hd⟩

theorem waits_request {i : Nat} :
    c.waits (.request i) = true ↔ ∃ r, c.mux.objs[i]? = some r ∧ r.ended = false := by
  simp only [waits, Option.any_eq_true, Bool.not_eq_true']

theorem waits_requestNoMux {i : Nat} : c.waits (.requestNoMux i) = true ↔
    ∃ r, c.noMux[i]? = some r ∧ r.returned = true ∧ r.settled = none := by
  simp only [waits, Option.any_eq_true, Bool.and_eq_true, Option.isNone_iff_eq_none]

theorem waits_flush {d : Nat} :
    c.waits (.flush d) = true ↔ d ∈ c.flushes ∧ c.handler.link.outcome d = none := by
  simp only [waits, Bool.and_eq_true, decide_eq_true_eq, Option.isNone_iff_eq_none]

theorem waits_drain {o d : Nat} : c.waits (.drain o d) = true ↔ (o, d) ∈ c.handler.drains := by
  simp only [waits, List.any_eq_true, Bool.and_eq_true, decide_eq_true_eq]
  constructor
  · rintro ⟨x, hx, rfl, rfl⟩
    exact hx
  · intro hmem
    exact ⟨(o, d), hmem, rfl, rfl⟩

theorem settled_drain {o d : Nat} : c.settled (.drain o d) = true ↔ (o, d) ∉ c.handler.drains := by
  have hsettled : c.settled (.drain o d) = !c.waits (.drain o d) := rfl
  rw [hsettled, Bool.not_eq_true', ← waits_drain, Bool.not_eq_true]

/-- Where nothing happens before the close completes, what it settles are the requests in the map,
and the drains whose flush was settled. -/
theorem answered_of_settled (hi : c.Inv) (hopen : c.handler.link.closed = false)
    (hsettled : ∀ w, c.waits w = true → c.close.settleDrains.settled w = true) : c.Answered := by
  obtain ⟨hmux, hnoMux, -, hdrains, houtcome⟩ := close_spec hopen
  have hfollows : Follows (fun _ => "") "" (fun _ => False) c c.close := follows_close c
  obtain ⟨hmux', hnoMux', -, hlink', hdrains'⟩ := settleDrains_spec (hfollows.inv hi)
  constructor
  · intro i hwaits
    obtain ⟨r, hr, hended⟩ := waits_request.1 hwaits
    obtain ⟨r', hr', hover⟩ := Mux.MuxSubscription.ended_close hr
    have hobj : c.close.settleDrains.mux.objs[i]? = some r' := by
      rw [hmux', hmux]
      exact hr'
    have hit := hsettled (.request i) hwaits
    rw [settled, hobj, Option.any_some, hover, hended, Bool.false_or] at hit
    exact of_decide_eq_true hit
  · intro i
    apply Bool.eq_false_iff.2
    intro hwaits
    obtain ⟨r, hr, -, hnone⟩ := waits_requestNoMux.1 hwaits
    have hit := hsettled (.requestNoMux i) hwaits
    rw [settled, hnoMux', hnoMux, hr, Option.any_some, hnone] at hit
    cases hit
  · intro d
    apply Bool.eq_false_iff.2
    intro hwaits
    obtain ⟨hmem, hnone⟩ := waits_flush.1 hwaits
    have hit := hsettled (.flush d) hwaits
    rw [settled, hlink', houtcome d (hi.flushes d hmem), hnone] at hit
    cases hit
  · intro o d hwaits hnone
    have hmem := waits_drain.1 hwaits
    apply settled_drain.1 (hsettled (.drain o d) hwaits)
    rw [hdrains', hdrains, houtcome d (hi.drains _ hmem).2]
    exact ⟨hmem, hnone⟩

/-- What is settled by the close, or was before, is settled when it completes. -/
theorem settled_of_answered (hi : c.Inv) (hopen : c.handler.link.closed = false) (ha : c.Answered)
    (hcloses : Closes nuid inboxPrefix c c') {w : Waiter} (hwaits : c.waits w = true) :
    c'.settled w = true := by
  obtain ⟨es, c₁, hrun, rfl⟩ := hcloses
  have hclose : Follows nuid inboxPrefix (fun _ => False) c c.close := follows_close c
  have hfollows : Follows nuid inboxPrefix (fun _ => True) c.close c₁ := follows_run hrun
  obtain ⟨hmux, -, -, -, houtcome⟩ := close_spec hopen
  obtain ⟨hmux', -, -, -, hdrains'⟩ := settleDrains_spec (hfollows.inv (hclose.inv hi))
  cases w with
  | request i =>
      obtain ⟨r, hr, -⟩ := waits_request.1 hwaits
      obtain ⟨r', hr', hover⟩ := Mux.MuxSubscription.ended_close hr
      rw [decide_eq_true (ha.requests i hwaits), Bool.or_true] at hover
      have hobj : c.close.mux.objs[i]? = some r' := by
        rw [hmux]
        exact hr'
      obtain ⟨r'', hr'', hover'⟩ := hfollows.requests i r' hobj hover
      rw [settled, hmux', hr'', Option.any_some]
      exact hover'
  | requestNoMux i =>
      rw [ha.noMux i] at hwaits
      cases hwaits
  | flush d =>
      rw [ha.flushes d] at hwaits
      cases hwaits
  | drain o d =>
      have hmem := waits_drain.1 hwaits
      obtain ⟨x, hx⟩ := Option.ne_none_iff_exists'.1 (ha.drains o d hwaits)
      rw [← houtcome d (hi.drains _ hmem).2] at hx
      have hsome := hfollows.handler.link.outcome hx
      apply settled_drain.2
      rw [hdrains', hsome]
      exact fun h => absurd h.2 (Option.some_ne_none x)

/-- **A close settles the requests in the map and nothing else that waits**: it settles every
promise, whatever happens before it completes, exactly where only those wait. -/
theorem settles_iff {es : List Event} {pendingLimit maxOut : Nat}
    (hrun : run (step nuid inboxPrefix) (new pendingLimit maxOut) es = some c)
    (hopen : c.handler.link.closed = false) :
    (∀ c', Closes nuid inboxPrefix c c' → ∀ w, c.waits w = true → c'.settled w = true) ↔
      c.Answered := by
  have hi : c.Inv := inv_run hrun
  constructor
  · intro hall
    exact answered_of_settled hi hopen (hall c.close.settleDrains ⟨[], c.close, rfl, rfl⟩)
  · intro ha c' hcloses w hwaits
    exact settled_of_answered hi hopen ha hcloses hwaits

/-- The first connect. -/
def connect : List Event :=
  [.handler (.link .prepare), .handler (.link (.info (some "\x7b\x7d"))), .handler (.link .pong),
    .handler .dialDone]

/-- A request over the mux subscription, and a drain whose flush is answered. -/
def answered : List Event :=
  connect ++ [.call (.request ⟨"a", none, none⟩ "PUB a _INBOX.nn.n 0\r\n" []),
    .call (.handler (.subscribe ⟨"b", none, none, true, false⟩)), .call (.handler (.drain 1)),
    .handler (.link .pong)]

theorem settles_iff_answered :
    ∃ c, run (step Mux.MuxSubscription.letters "") (new 32768 2) answered = some c ∧
      c.waits (.request 0) = true ∧ c.waits (.drain 1 1) = true ∧
      ∀ c', Closes Mux.MuxSubscription.letters "" c c' → ∀ w, c.waits w = true →
      c'.settled w = true := by
  have hends : (run (step Mux.MuxSubscription.letters "") (new 32768 2) answered).any (fun c =>
      !c.handler.link.closed && c.waits (.request 0) && c.waits (.drain 1 1) && c.noMux.isEmpty &&
        c.flushes.isEmpty && c.handler.drains.all fun x =>
        (c.handler.link.outcome x.2).isSome) = true := by
    decide +kernel
  obtain ⟨c, hrun, hc⟩ := (Option.any_eq_true _ _).1 hends
  simp only [Bool.and_eq_true, Bool.not_eq_true', List.isEmpty_iff, List.all_eq_true] at hc
  obtain ⟨⟨⟨⟨⟨hopen, hrequest⟩, hdrain⟩, hnoMux⟩, hflushes⟩, hdrains⟩ := hc
  refine ⟨c, hrun, hrequest, hdrain, (settles_iff hrun hopen).2 ⟨?_, fun i => ?_, fun d => ?_, ?_⟩⟩
  · exact mapped Mux.MuxSubscription.letters_injective hrun
  · simp [waits, hnoMux]
  · simp [waits, hflushes]
  · intro o d hwaits hnone
    have hsome := hdrains _ (waits_drain.1 hwaits)
    rw [hnone] at hsome
    cases hsome

/-- A request over the mux subscription, one without it, a flush, and a drain. -/
def busy : List Event :=
  connect ++ [.call (.request ⟨"a", none, none⟩ "PUB a _INBOX.nn.n 0\r\n" []),
    .call (.requestNoMux "b" none (some ("PUB b _INBOX.nnn 0\r\n", []))), .call (.handler .flush),
    .call (.handler (.subscribe ⟨"c", none, none, true, false⟩)), .call (.handler (.drain 2))]

/-- All but the first are left behind. -/
theorem not_settles :
    ∃ c c', run (step Mux.MuxSubscription.letters "") (new 32768 2) busy = some c ∧
      c.handler.link.connected = true ∧ c.handler.link.closed = false ∧
      Closes Mux.MuxSubscription.letters "" c c' ∧
      ∀ w ∈ [Waiter.requestNoMux 0, .flush 1, .drain 2 2], c.waits w = true ∧
      c'.settled w = false := by
  have hends : (run (step Mux.MuxSubscription.letters "") (new 32768 2) busy).any (fun c =>
      c.handler.link.connected && !c.handler.link.closed &&
        [Waiter.requestNoMux 0, .flush 1, .drain 2 2].all fun w =>
          c.waits w && !c.close.settleDrains.settled w) = true := by decide +kernel
  obtain ⟨c, hrun, hc⟩ := (Option.any_eq_true _ _).1 hends
  simp only [Bool.and_eq_true, Bool.not_eq_true', List.all_eq_true] at hc
  exact ⟨c, c.close.settleDrains, hrun, hc.1.1, hc.1.2, ⟨[], c.close, rfl, rfl⟩, hc.2⟩

end Operations.Client

end NatsClient.Connection
