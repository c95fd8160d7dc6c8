import NatsClient.Connection.Requests
import NatsClient.Iterator.Stopping

/-!
# Requests for many replies

Model of what becomes of a `requestMany` that was published: `RequestMany` (`request.ts`) over the
mux subscription, and with `noMux` the callback of the subscription of its own with its timer
(`nats.ts`). Each pushes the replies into the iterator until the request is over, and then a
function that stops it.

Over the mux subscription the request is taken off the map at once. A subscription of its own is
drained, so replies still come in until the server has answered the flush; and they are pushed.

* `accounted_step`: what was pushed, one step after the other;
* `count_exact`: with a count, just the first replies are presented, if no reply comes in while the
  subscription is drained; and the iterator ends.
-/

set_option autoImplicit false

namespace NatsClient.Connection

open NatsClient.Foundation NatsClient.Iterator

variable {α : Type}

/-- A request under way. `registered` says whether replies still get to it: by its token, or by the
table of subscriptions. `closed` is the deferred `done`, with `noMux` that of the subscription, and
`draining` its drain, for which `waiters` calls wait. `stops` counts the continuations that are
about to call `stop()`, and `ended` says that the one of `iterClosed` ran. `replies` logs the
replies until `maxWait` is over, and `expired` says that it is. -/
structure RequestMany (α : Type) where
  noMux : Bool
  strategy : RequestStrategy
  max : Int
  registered : Bool
  timer : Bool
  closed : Bool
  draining : Bool
  waiters : Nat
  stops : Nat
  ended : Bool
  iter : QueuedIterator α IterFn RequestFailure
  replies : List α
  expired : Bool
deriving DecidableEq

/-- What can happen to it. An error may be one of the subscription, or a reply that is one. -/
inductive RequestManyEvent (α : Type) where
  | reply (v : α)
  | error (err : RequestFailure)
  | timeout
  | drained
  | stop
  | iterClosed
  | next
deriving DecidableEq

namespace RequestMany

/-- The request, once it is published. -/
def new (opts : RequestManyOptions) : RequestMany α where
  noMux := opts.noMux
  strategy := opts.strategy.getD .timer
  max :=
    match opts.maxMessages with
    | some m => if 0 < m then m else -1
    | none => -1
  registered := true
  timer := true
  closed := false
  draining := false
  waiters := 0
  stops := 0
  ended := false
  iter := .new
  replies := []
  expired := false

/-- `done` or `closed` is resolved; the first time the continuation is going to stop the
iterator. -/
def resolve (r : RequestMany α) : RequestMany α :=
  { r with closed := true, stops := if r.closed then r.stops else r.stops + 1 }

/-- `subscriptions.cancel(sub)`. -/
def cancelSub (r : RequestMany α) : RequestMany α := { r.resolve with registered := false }

/-- `cancel()`. The drain of a closed subscription is rejected, and stops the iterator too. -/
def cancel (r : RequestMany α) : RequestMany α :=
  let r := { r with timer := false }
  if r.noMux then
    if r.closed then { r with stops := r.stops + 1 }
    else { r with draining := true, waiters := r.waiters + 1 }
  else { r.resolve with registered := false }

/-- `cancel(err)`. -/
def cancelWith (r : RequestMany α) (err : RequestFailure) : RequestMany α :=
  let f : IterFn := if r.noMux then .fails err else .stop (some err)
  { r with iter := r.iter.pushFn f }.cancel

section

variable (isEmpty : α → Bool)

/-- A reply that gets to the request. -/
def resolver (r : RequestMany α) (v : α) : RequestMany α :=
  let r := { r with iter := r.iter.push v ⟨true, false⟩ }
  match r.strategy with
  | .timer => r
  | .count =>
      -- without `maxMessages` this is negative and never gets to zero
      let r := { r with max := r.max - 1 }
      if r.max = 0 then r.cancel else r
  -- the timer starts over
  | .jitterTimer => { r with timer := true }
  | .sentinelMsg => if isEmpty v then r.cancel else r

/-- A reply; one that comes for no request is dropped. -/
def reply (r : RequestMany α) (v : α) : RequestMany α :=
  let r := { r with replies := if r.expired then r.replies else r.replies ++ [v] }
  if r.registered then r.resolver isEmpty v else r

/-- One event; `none` where it cannot happen. -/
def step (r : RequestMany α) : RequestManyEvent α → Option (RequestMany α)
  | .reply v => some (r.reply isEmpty v)
  | .error err => if r.registered then some (r.cancelWith err) else none
  | .timeout => if r.timer then some { r.cancel with expired := true } else none
  -- the flush of the drain is over, and all who wait for it go on
  | .drained =>
      if r.draining then
        some { r.cancelSub with
          draining := false
          stops := r.cancelSub.stops + r.waiters
          waiters := 0 }
      else none
  | .stop =>
      if 0 < r.stops then some { r with stops := r.stops - 1, iter := r.iter.pushFn (.stop none) }
      else none
  | .iterClosed =>
      if r.iter.done && !r.ended then
        -- the timer and the subscription of `noMux` are its own, the others those of the mux
        let r := { r with ended := true }
        some (if r.noMux then { r.cancelSub with timer := false } else r.cancel)
      else none
  | .next => (r.iter.next (fun _ => true) IterFn.effect).map fun it => { r with iter := it }

end

/-- Not a reply, and not the timer. -/
def isInternal : RequestManyEvent α → Bool
  | .drained | .stop | .iterClosed | .next => true
  | .reply _ | .error _ | .timeout => false

/-- The request takes replies. -/
def live (r : RequestMany α) : Bool := r.registered && !r.draining

/-- The condition on a step: a reply is no error, and none comes in while the subscription is
drained. -/
def OnTime (r : RequestMany α) : RequestManyEvent α → Prop
  | .reply _ => r.registered = true → r.draining = false
  | .error _ => False
  | .timeout | .drained | .stop | .iterClosed | .next => True

instance (r : RequestMany α) : (e : RequestManyEvent α) → Decidable (r.OnTime e)
  | .reply _ => inferInstanceAs (Decidable (_ → _))
  | .error _ => isFalse id
  | .timeout | .drained | .stop | .iterClosed | .next => isTrue trivial

/-- The request is over. -/
def Over (n : Nat) (r : RequestMany α) : Prop := n ≤ r.replies.length ∨ r.expired = true

/-- Just the first replies are presented, in order; and once the request is over the iterator ends:
what happens by itself comes to an end, and then the loop over it is finished. -/
structure Exact (isEmpty : α → Bool) (n : Nat) (r : RequestMany α) : Prop where
  initial : r.iter.yielded <+: r.replies.take n
  complete : ∀ err, r.iter.consumer = .finished err → err = none ∧ r.Over n ∧
    r.iter.yielded = r.replies.take n
  ends : r.Over n → ∃ bound, ∀ es r', (∀ e ∈ es, isInternal e = true) →
    run (step isEmpty) r es = some r' → es.length ≤ bound ∧
      ((∀ e, isInternal e = true → step isEmpty r' e = none) →
        r'.iter.consumer = .finished none ∧ r'.iter.yielded = r.replies.take n)

/-! ## What was pushed -/

/-- What holds at every time. As long as replies get to the request, no function was pushed and none
is about to be. -/
structure Held (n : Nat) (fs : List IterFn) (r : RequestMany α) : Prop where
  strategy : r.strategy = .count
  fed : r.iter.Fed IterFn.effect (r.replies.take n) fs
  suspended : r.iter.consumer.isRunning = false
  isOpen : r.registered = true → fs = [] ∧ r.stops = 0 ∧ r.closed = false
  resolved : r.closed = true → fs ≠ [] ∨ 0 < r.stops
  pending : r.live = false → r.closed = true ∨ r.draining = true
  mux : r.noMux = false → r.draining = false

/-- The request counts down what is missing, and is over behind that or behind `maxWait`. -/
structure Accounted (n : Nat) (r : RequestMany α) : Prop where
  held : ∃ fs, r.Held n fs
  counting : r.live = true →
    r.replies.length < n ∧ r.max = (n : Int) - r.replies.length ∧ r.expired = false
  isOver : r.live = false → r.Over n

section

variable {isEmpty : α → Bool} {n : Nat} {fs : List IterFn} {r r' : RequestMany α}

theorem accounted_new {opts : RequestManyOptions} (hstrategy : opts.strategy = some .count)
    (hmax : opts.maxMessages = some (n : Int)) (hn : 1 ≤ n) :
    (new opts : RequestMany α).Accounted n := by
  refine ⟨⟨[], ?_, ?_, rfl, fun _ => ⟨rfl, rfl, rfl⟩, nofun, nofun, fun _ => rfl⟩,
    fun _ => ⟨hn, ?_, rfl⟩, nofun⟩
  · rw [new, hstrategy]
    rfl
  · rw [new, List.take_nil]
    exact QueuedIterator.fed_new
  · simp only [new, hmax, List.length_nil]
    rw [if_pos (by omega)]
    omega

/-- What is resolved is about to stop the iterator. -/
theorem Held.stops_resolve (h : r.Held n fs) : fs ≠ [] ∨ 0 < r.resolve.stops := by
  unfold resolve
  simp only
  split
  · exact h.resolved ‹_›
  · exact Or.inr (Nat.succ_pos _)

/-- A subscription is off the table. -/
theorem Held.cancelSub (h : r.Held n fs) : r.cancelSub.Held n fs :=
  ⟨h.strategy, h.fed, h.suspended, nofun, fun _ => h.stops_resolve, fun _ => Or.inl rfl, h.mux⟩

/-- A request that is cancelled takes no more replies. -/
theorem Held.cancel (h : r.Held n fs) : r.cancel.Held n fs ∧ r.cancel.live = false := by
  unfold RequestMany.cancel
  simp only
  split
  · split
    · -- the drain of a closed subscription is rejected
      rename_i hclosed
      have hregistered : r.registered = false := by
        cases hr : r.registered with
        | false => rfl
        | true =>
            rw [(h.isOpen hr).2.2] at hclosed
            cases hclosed
      refine ⟨⟨h.strategy, h.fed, h.suspended, ?_, fun _ => Or.inr (Nat.succ_pos _),
        h.pending, h.mux⟩, ?_⟩
      · intro hr
        rw [hregistered] at hr
        cases hr
      · show (r.registered && !r.draining) = false
        rw [hregistered]
        rfl
    · refine ⟨⟨h.strategy, h.fed, h.suspended, h.isOpen, h.resolved, fun _ => Or.inr rfl, ?_⟩, ?_⟩
      · intro hmux
        rename_i hnoMux _
        rw [hmux] at hnoMux
        cases hnoMux
      · exact Bool.and_false _
  · exact ⟨⟨h.strategy, h.fed, h.suspended, nofun, fun _ => h.stops_resolve, fun _ => Or.inl rfl,
      h.mux⟩, rfl⟩

/-- The iterator may go on, and log fields may change. -/
theorem Held.accounted (h : r.Held n fs) (hlive : r.live = false) (hover : r.Over n) :
    r.Accounted n := by
  refine ⟨⟨fs, h⟩, fun hr => ?_, fun _ => hover⟩
  rw [hlive] at hr
  cases hr

/-- A reply to a request with a count. -/
theorem resolver_count (h : r.strategy = .count) (v : α) :
    r.resolver isEmpty v =
      let r := { r with iter := r.iter.push v ⟨true, false⟩, max := r.max - 1 }
      if r.max = 0 then r.cancel else r := by
  obtain ⟨noMux, strategy, max, registered, timer, closed, draining, waiters, stops, ended,
      iter, replies,
    expired⟩ := r
  cases h
  rfl

/-- **A reply.** -/
theorem Accounted.reply (h : r.Accounted n) (v : α) (hok : r.OnTime (.reply v)) :
    (r.reply isEmpty v).Accounted n := by
  obtain ⟨fs, hheld⟩ := h.held
  unfold RequestMany.reply
  simp only
  split
  · rename_i hregistered
    have hlive : r.live = true := by
      rw [live, hregistered, hok hregistered]
      rfl
    obtain ⟨hlt, hmax, hexpired⟩ := h.counting hlive
    obtain ⟨rfl, hstops, hclosed⟩ := hheld.isOpen hregistered
    have htake : r.replies.take n ++ [v] = (r.replies ++ [v]).take n := by
      rw [List.take_of_length_le (Nat.le_of_lt hlt), List.take_of_length_le]
      rw [List.length_append]
      exact hlt
    -- the reply is pushed and counted, and the rest is as before
    have hheld' : ({ r with
        replies := r.replies ++ [v]
        iter := r.iter.push v ⟨true, false⟩
        max := r.max - 1 } : RequestMany α).Held n [] := by
      refine ⟨hheld.strategy, htake ▸ hheld.fed.push v, ?_, hheld.isOpen, hheld.resolved,
        hheld.pending, hheld.mux⟩
      show (r.iter.push v ⟨true, false⟩).consumer.isRunning = false
      rw [QueuedIterator.consumer_push]
      exact hheld.suspended
    have hlength : (r.replies ++ [v]).length = r.replies.length + 1 := List.length_append
    have hlogged : (if r.expired = true then r.replies else r.replies ++ [v]) = r.replies ++ [v] :=
      if_neg (by rw [hexpired]; nofun)
    rw [hlogged, resolver_count]
    rotate_left
    · exact hheld.strategy
    simp only
    split
    · rename_i hzero
      obtain ⟨hcancel, hdead⟩ := hheld'.cancel
      have hreplies : ∀ x : RequestMany α, x.cancel.replies = x.replies := by
        intro x
        unfold RequestMany.cancel
        simp only
        split
        · split <;> rfl
        · rfl
      have hlong : n ≤ (r.replies ++ [v]).length := by omega
      exact hcancel.accounted hdead (Or.inl (by rw [hreplies]; exact hlong))
    · rename_i hmore
      refine ⟨⟨[], hheld'⟩, fun _ => ⟨?_, ?_, hexpired⟩, fun hdead => ?_⟩
      · show (r.replies ++ [v]).length < n
        omega
      · show r.max - 1 = (n : Int) - (r.replies ++ [v]).length
        omega
      · have hdead : r.live = false := hdead
        rw [hlive] at hdead
        cases hdead
  · rename_i hregistered
    have hdead : r.live = false := by
      rw [live, Bool.eq_false_iff.2 hregistered]
      rfl
    have htake : (if r.expired = true then r.replies else r.replies ++ [v]).take n =
        r.replies.take n := by
      split
      · rfl
      · have hlong := (h.isOver hdead).resolve_right ‹_›
        exact List.take_append_of_le_length hlong
    refine @Held.accounted _ n fs _ ⟨hheld.strategy, ?_, hheld.suspended, hheld.isOpen,
      hheld.resolved, hheld.pending, hheld.mux⟩ hdead ?_
    · exact htake.symm ▸ hheld.fed
    · rcases h.isOver hdead with hlong | hexpired
      · refine Or.inl (Nat.le_trans hlong ?_)
        show _ ≤ (if r.expired = true then r.replies else r.replies ++ [v]).length
        split
        · exact Nat.le_refl _
        · rw [List.length_append]
          exact Nat.le_add_right _ _
      · exact Or.inr hexpired

/-- **One event.** -/
theorem accounted_step {e : RequestManyEvent α} (h : r.Accounted n) (hok : r.OnTime e)
    (hstep : step isEmpty r e = some r') : r'.Accounted n := by
  obtain ⟨fs, hheld⟩ := h.held
  cases e with
  | reply v =>
      cases hstep
      exact h.reply v hok
  | error err => exact hok.elim
  | timeout =>
      obtain ⟨-, hsome⟩ := Option.ite_none_right_eq_some.1 hstep
      obtain ⟨hcancel, hdead⟩ := hheld.cancel
      rw [← Option.some.inj hsome]
      refine @Held.accounted _ n fs _ ⟨hcancel.strategy, hcancel.fed, hcancel.suspended,
        hcancel.isOpen, hcancel.resolved, hcancel.pending, hcancel.mux⟩ hdead (Or.inr rfl)
  | drained =>
      obtain ⟨hdraining, hsome⟩ := Option.ite_none_right_eq_some.1 hstep
      have hcancel := hheld.cancelSub
      have hdead : r.live = false := by
        rw [live, hdraining]
        exact Bool.and_false _
      rw [← Option.some.inj hsome]
      refine @Held.accounted _ n fs _ ⟨hcancel.strategy, hcancel.fed, hcancel.suspended, nofun,
        fun _ => ?_, fun _ => Or.inl rfl, fun _ => rfl⟩ rfl (h.isOver hdead)
      exact hheld.stops_resolve.imp_right fun hpos => Nat.lt_of_lt_of_le hpos (Nat.le_add_right _ _)
  | stop =>
      obtain ⟨hpos, hsome⟩ := Option.ite_none_right_eq_some.1 hstep
      have hregistered : r.registered = false := by
        cases hr : r.registered with
        | false => rfl
        | true =>
            rw [(hheld.isOpen hr).2.1] at hpos
            cases hpos
      have hdead : r.live = false := by
        rw [live, hregistered]
        rfl
      obtain ⟨fs', hne, hfed⟩ := hheld.fed.pushFn (f := .stop none) rfl
      rw [← Option.some.inj hsome]
      refine @Held.accounted _ n fs' _ ⟨hheld.strategy, hfed, ?_, fun hr => ?_, fun _ => Or.inl hne,
        hheld.pending, hheld.mux⟩ hdead (h.isOver hdead)
      · show (r.iter.pushFn _).consumer.isRunning = false
        rw [QueuedIterator.consumer_pushFn]
        exact hheld.suspended
      · have hr : r.registered = true := hr
        rw [hregistered] at hr
        cases hr
  | iterClosed =>
      obtain ⟨hdone, hsome⟩ := Option.ite_none_right_eq_some.1 hstep
      -- a function stopped the iterator, so the request was over before
      have hregistered : r.registered = false := by
        cases hr : r.registered with
        | false => rfl
        | true =>
            have hne := hheld.fed.ne_nil_of_done (Bool.and_eq_true_iff.1 hdone).1
            exact absurd (hheld.isOpen hr).1 hne
      have hdead : r.live = false := by
        rw [live, hregistered]
        rfl
      have hended : ({ r with ended := true } : RequestMany α).Held n fs :=
        ⟨hheld.strategy, hheld.fed, hheld.suspended, hheld.isOpen, hheld.resolved,
          hheld.pending, hheld.mux⟩
      rw [← Option.some.inj hsome]
      simp only
      split
      · have hcancel := hended.cancelSub
        exact @Held.accounted _ n fs _ ⟨hcancel.strategy, hcancel.fed, hcancel.suspended, nofun,
          hcancel.resolved, fun _ => Or.inl rfl, hcancel.mux⟩ rfl (h.isOver hdead)
      · rename_i hmux
        obtain ⟨hcancel, hdead'⟩ := hended.cancel
        refine hcancel.accounted hdead' ?_
        unfold RequestMany.cancel
        simp only
        rw [if_neg hmux]
        exact h.isOver hdead
  | next =>
      obtain ⟨it, hnext, rfl⟩ := Option.map_eq_some_iff.1 hstep
      refine ⟨⟨fs, hheld.strategy, hheld.fed.next hnext, QueuedIterator.isRunning_next hnext,
        hheld.isOpen, hheld.resolved, hheld.pending, hheld.mux⟩, h.counting, h.isOver⟩

/-! ## How it ends -/

/-- What still happens by itself. -/
def todo (r : RequestMany α) : Nat :=
  r.iter.rank + 3 * r.stops + 3 * r.waiters + (if r.closed then 0 else 4) + r.draining.toNat +
    (!r.ended).toNat

theorem todo_step {e : RequestManyEvent α} (he : isInternal e = true)
    (hstep : step isEmpty r e = some r') : r'.todo < r.todo := by
  cases e with
  | reply v | error err | timeout => cases he
  | drained =>
      obtain ⟨hdraining, hsome⟩ := Option.ite_none_right_eq_some.1 hstep
      rw [← Option.some.inj hsome]
      simp only [todo, RequestMany.cancelSub, resolve, hdraining, Bool.toNat_true,
        Bool.toNat_false, if_true]
      split <;> omega
  | stop =>
      obtain ⟨hpos, hsome⟩ := Option.ite_none_right_eq_some.1 hstep
      have hrank := QueuedIterator.rank_pushFn r.iter (.stop none)
      rw [← Option.some.inj hsome]
      simp only [todo]
      omega
  | iterClosed =>
      obtain ⟨hdone, hsome⟩ := Option.ite_none_right_eq_some.1 hstep
      have hended : r.ended = false := by
        have hnot := (Bool.and_eq_true_iff.1 hdone).2
        simpa using hnot
      rw [← Option.some.inj hsome]
      simp only
      split
      · simp only [todo, RequestMany.cancelSub, resolve, hended, Bool.not_false, Bool.not_true,
          Bool.toNat_true, Bool.toNat_false, if_true]
        split <;> omega
      · rename_i hnoMux
        simp only [RequestMany.cancel, if_neg hnoMux]
        simp only [todo, resolve, hended, Bool.not_false, Bool.not_true, Bool.toNat_true,
          Bool.toNat_false, if_true]
        split <;> omega
  | next =>
      obtain ⟨it, hnext, rfl⟩ := Option.map_eq_some_iff.1 hstep
      have hrank := QueuedIterator.rank_next hnext
      simp only [todo]
      omega

/-- What happens by itself takes no replies. -/
theorem replies_step {e : RequestManyEvent α} (he : isInternal e = true)
    (hstep : step isEmpty r e = some r') : r'.replies = r.replies ∧ r'.expired = r.expired := by
  cases e with
  | reply v | error err | timeout => cases he
  | drained | stop =>
      obtain ⟨-, hsome⟩ := Option.ite_none_right_eq_some.1 hstep
      rw [← Option.some.inj hsome]
      exact ⟨rfl, rfl⟩
  | iterClosed =>
      obtain ⟨-, hsome⟩ := Option.ite_none_right_eq_some.1 hstep
      rw [← Option.some.inj hsome]
      simp only
      split
      · exact ⟨rfl, rfl⟩
      · rename_i hmux
        simp only [RequestMany.cancel, if_neg hmux]
        exact ⟨rfl, rfl⟩
  | next =>
      obtain ⟨it, -, rfl⟩ := Option.map_eq_some_iff.1 hstep
      exact ⟨rfl, rfl⟩

/-- **What happens by itself** comes to an end, and keeps the account. -/
theorem run_internal {es : List (RequestManyEvent α)} (h : r.Accounted n)
    (hes : ∀ e ∈ es, isInternal e = true) (hrun : run (step isEmpty) r es = some r') :
    es.length + r'.todo ≤ r.todo ∧ r'.Accounted n ∧ r'.replies = r.replies ∧
      r'.expired = r.expired := by
  induction es generalizing r with
  | nil =>
      cases hrun
      exact ⟨Nat.le_of_eq (Nat.zero_add _), h, rfl, rfl⟩
  | cons e es ih =>
      obtain ⟨r₁, hstep, hrest⟩ := run_cons_inv hrun
      have he := hes e List.mem_cons_self
      have hok : r.OnTime e := by
        cases e with
        | reply v | error err => cases he
        | timeout | drained | stop | iterClosed | next => trivial
      have hlt := todo_step he hstep
      obtain ⟨hreplies, hexpired⟩ := replies_step he hstep
      obtain ⟨hle, haccounted, hreplies', hexpired'⟩ :=
        ih (accounted_step h hok hstep) (fun e he => hes e (List.mem_cons_of_mem _ he)) hrest
      refine ⟨?_, haccounted, hreplies'.trans hreplies, hexpired'.trans hexpired⟩
      rw [List.length_cons]
      omega

/-- A request that is over, and of which nothing happens any more, has an iterator that is
finished. -/
theorem Accounted.finished_of_stuck (h : r.Accounted n) (hover : r.Over n)
    (hstuck : ∀ e, isInternal e = true → step isEmpty r e = none) :
    r.iter.consumer = .finished none ∧ r.iter.yielded = r.replies.take n := by
  obtain ⟨fs, hheld⟩ := h.held
  have hdraining : r.draining = false := by
    cases hd : r.draining with
    | false => rfl
    | true =>
        have hnone := hstuck .drained rfl
        rw [step, if_pos hd] at hnone
        cases hnone
  have hstops : ¬ 0 < r.stops := by
    intro hpos
    have hnone := hstuck .stop rfl
    rw [step, if_pos hpos] at hnone
    cases hnone
  have hdead : r.live = false := by
    cases hlive : r.live with
    | false => rfl
    | true =>
        obtain ⟨hlt, -, hexpired⟩ := h.counting hlive
        rcases hover with hlong | hover
        · omega
        · rw [hexpired] at hover
          cases hover
  have hclosed : r.closed = true := by
    refine (hheld.pending hdead).resolve_right ?_
    rw [hdraining]
    nofun
  have hnext : r.iter.next (fun _ => true) IterFn.effect = none :=
    Option.map_eq_none_iff.1 (hstuck .next rfl)
  have hfinished := hheld.fed.finished_of_stuck ((hheld.resolved hclosed).resolve_right hstops)
    hheld.suspended hnext
  exact ⟨hfinished, (hheld.fed.yielded_of_finished hfinished).2⟩

theorem Accounted.exact (h : r.Accounted n) : r.Exact isEmpty n := by
  obtain ⟨fs, hheld⟩ := h.held
  refine ⟨hheld.fed.yielded_initial, fun err hc => ?_,
    fun hover => ⟨r.todo, fun es r' hes hrun => ?_⟩⟩
  · obtain ⟨herr, hyielded⟩ := hheld.fed.yielded_of_finished hc
    refine ⟨herr, h.isOver ?_, hyielded⟩
    -- a function stopped the iterator
    have hne := hheld.fed.ne_nil_of_done (hheld.fed.done_of_finished hc)
    cases hr : r.registered with
    | true => exact absurd (hheld.isOpen hr).1 hne
    | false =>
        rw [live, hr]
        rfl
  · obtain ⟨hle, haccounted, hreplies, hexpired⟩ := run_internal h hes hrun
    refine ⟨by omega, fun hstuck => ?_⟩
    have hover' : r'.Over n := by
      rw [Over, hreplies, hexpired]
      exact hover
    rw [← hreplies]
    exact haccounted.finished_of_stuck hover' hstuck

/-- **A request with a count is exact** where no reply comes in while its subscription is drained:
the first `n` replies, or those until `maxWait`, are presented in order, never more, and the
iterator ends. -/
theorem count_exact (isEmpty : α → Bool) (opts : RequestManyOptions) (n : Nat) (r : RequestMany α)
    (es : List (RequestManyEvent α)) (hstrategy : opts.strategy = some .count)
    (hmax : opts.maxMessages = some (n : Int)) (hn : 1 ≤ n)
    (hrun : run (step isEmpty) (new opts) es = some r)
    (hok : Meets (step isEmpty) OnTime (new opts) es) : r.Exact isEmpty n := by
  have haccounted : r.Accounted n :=
    invariant_run_of_meets (fun _ _ _ h hok hstep => accounted_step h hok hstep) hrun hok
      (accounted_new hstrategy hmax hn)
  exact haccounted.exact

end

/-- Three replies to a request for two with `noMux`, the third behind the drain. -/
theorem count_exact_drained :
    let opts : RequestManyOptions := ⟨some .count, none, none, some 2, true, none⟩
    ∃ r : RequestMany Nat, run (step fun v => v == 0) (new opts)
        [.reply 5, .next, .reply 6, .next, .drained, .reply 7, .stop, .stop, .next] = some r ∧
      r.replies = [5, 6, 7] ∧ r.iter.consumer = .finished none ∧ r.iter.yielded = [5, 6] := by
  intro opts
  let es : List (RequestManyEvent Nat) :=
    [.reply 5, .next, .reply 6, .next, .drained, .reply 7, .stop, .stop, .next]
  have hends : (run (step fun v => v == 0) (new opts) es).any (fun r =>
      r.replies = [5, 6, 7] ∧ r.iter.consumer = .finished none) = true := by
    decide +kernel
  obtain ⟨r, hrun, hr⟩ := (Option.any_eq_true _ _).1 hends
  obtain ⟨hreplies, hfinished⟩ := of_decide_eq_true hr
  have hexact :=
    count_exact (fun v => v == 0) opts 2 r es rfl rfl (by decide) hrun (by decide +kernel)
  obtain ⟨-, -, hyielded⟩ := hexact.complete none hfinished
  refine ⟨r, hrun, hreplies, hfinished, ?_⟩
  rw [hyielded, hreplies]
  rfl

/-- The second reply to a request for one is in flight when the first arrives: with `noMux` both are
presented. -/
theorem not_count_exact :
    ¬ ∀ (isEmpty : Nat → Bool) (opts : RequestManyOptions) (n : Nat) (r : RequestMany Nat)
        (es : List (RequestManyEvent Nat)), opts.strategy = some .count →
        opts.maxMessages = some (n : Int) →
      1 ≤ n → (∀ err, .error err ∉ es) → run (step isEmpty) (new opts) es = some r →
      r.Exact isEmpty n := by
  intro h
  let opts : RequestManyOptions := ⟨some .count, none, none, some 1, true, none⟩
  let es : List (RequestManyEvent Nat) := [.reply 5, .reply 6, .next, .next]
  have hends : (run (step fun v => v == 0) (new opts) es).any (fun r =>
      r.replies = [5, 6] ∧ r.iter.yielded = [5, 6]) = true := by
    decide +kernel
  obtain ⟨r, hrun, hr⟩ := (Option.any_eq_true _ _).1 hends
  obtain ⟨hreplies, hyielded⟩ := of_decide_eq_true hr
  have hexact :=
    h (fun v => v == 0) opts 1 r es rfl rfl (Nat.le_refl 1) (fun err => by simp [es]) hrun
  have hinitial := hexact.initial
  rw [hreplies, hyielded] at hinitial
  exact absurd hinitial (by decide)

end RequestMany

end NatsClient.Connection
