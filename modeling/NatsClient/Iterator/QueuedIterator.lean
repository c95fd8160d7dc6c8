import Mathlib.Data.List.Basic
import Mathlib.Tactic.Common

/-!
# The queued iterator

Model of `QueuedIteratorImpl` (`queued_iterator.ts`): `push`, `stop` and the generator `iterate`. A
queue holds values and functions. The generator works on a batch: it swaps `yields` for an empty
array, presents the values of the batch one by one and runs its functions on the way, while pushes
go to the new array.

The generator is a state (`Consumer`): suspended in front of its first turn, on the signal or at a
`yield`, running inside a batch, or finished. `resume` leaves a suspension, `tick` is one step of
the running generator, and `next` runs from one suspension to the next. What every `resume` and
every `tick` preserves, `next` preserves (`next_induction`), and `next` always reaches a suspension
(`running_next`).

The log fields `yielded` and `called` record the values presented and the functions run.
-/

set_option autoImplicit false

namespace NatsClient.Iterator

/-- What an ingestion filter answers: `IngestionFilterFnResult`. -/
structure IngestionFilterFnResult where
  ingest : Bool
  protocol : Bool
deriving DecidableEq, Repr

/-- An element of `yields`: a value, or a function to run when the consumer gets there. -/
inductive Item (α φ : Type) where
  | value (v : α)
  | fn (f : φ)
deriving DecidableEq, Repr

/-- What running a function does to the iterator: it may stop it, and it may throw. -/
structure Effect (E : Type) where
  stops : Option (Option E)
  throws : Option E

/-- Where the generator `iterate` is. -/
inductive Consumer (α φ E : Type) where
  | idle
  | waiting
  | presenting (v : α) (batch : List (Item α φ))
  | running (batch : List (Item α φ))
  | finished (err : Option E)
deriving DecidableEq, Repr

/-- The fields of `QueuedIteratorImpl`. A signal is a deferred: `signal` says whether it is
resolved, `iterClosed` what it was resolved with. -/
structure QueuedIterator (α φ E : Type) where
  inflight : Int
  processed : Nat
  received : Nat
  filtered : Nat
  pendingFiltered : Int
  done : Bool
  signal : Bool
  yields : List (Item α φ)
  iterClosed : Option (Option E)
  err : Option E
  consumer : Consumer α φ E
  yielded : List α
  called : List φ
deriving DecidableEq, Repr

variable {α φ E : Type}

/-- The values of a list of items that pass the protocol filter. -/
def accepted (protocolFilterFn : α → Bool) : List (Item α φ) → List α
  | [] => []
  | .value v :: items =>
      if protocolFilterFn v then v :: accepted protocolFilterFn items
      else accepted protocolFilterFn items
  | .fn _ :: items => accepted protocolFilterFn items

/-- The functions of a list of items. -/
def functions : List (Item α φ) → List φ
  | [] => []
  | .value _ :: items => functions items
  | .fn f :: items => f :: functions items

@[simp] theorem accepted_append (p : α → Bool) (xs ys : List (Item α φ)) :
    accepted p (xs ++ ys) = accepted p xs ++ accepted p ys := by
  induction xs with
  | nil => rfl
  | cons x xs ih =>
      cases x with
      | fn f => simpa only [List.cons_append, accepted] using ih
      | value v =>
          by_cases hv : p v = true
          · simp only [List.cons_append, accepted, if_pos hv, ih]
          · simp only [List.cons_append, accepted, if_neg hv, ih]

@[simp] theorem functions_append (xs ys : List (Item α φ)) :
    functions (xs ++ ys) = functions xs ++ functions ys := by
  induction xs with
  | nil => rfl
  | cons x xs ih => cases x <;> simp only [List.cons_append, functions, ih]

/-- The rest of the batch the generator works on. -/
def Consumer.batch : Consumer α φ E → List (Item α φ)
  | .presenting _ batch | .running batch => batch
  | .idle | .waiting | .finished _ => []

/-- The generator is in the middle of a batch. -/
def Consumer.inBatch : Consumer α φ E → Bool
  | .presenting _ _ | .running _ => true
  | .idle | .waiting | .finished _ => false

/-- The generator is between two suspensions. -/
def Consumer.isRunning : Consumer α φ E → Bool
  | .running _ => true
  | _ => false

namespace QueuedIterator

/-- The constructor. -/
def new : QueuedIterator α φ E where
  inflight := 0
  processed := 0
  received := 0
  filtered := 0
  pendingFiltered := 0
  done := false
  signal := false
  yields := []
  iterClosed := none
  err := none
  consumer := .idle
  yielded := []
  called := []

/-- `push(v)` of a value, with the answer of the ingestion filter. -/
def push (it : QueuedIterator α φ E) (v : α) (r : IngestionFilterFnResult) : QueuedIterator α φ E :=
  if it.done then it
  else if r.ingest then
    { it with
      filtered := it.filtered + r.protocol.toNat
      pendingFiltered := it.pendingFiltered + r.protocol.toNat
      yields := it.yields ++ [.value v]
      signal := true }
  else it

/-- `push(v)` of a function. -/
def pushFn (it : QueuedIterator α φ E) (f : φ) : QueuedIterator α φ E :=
  if it.done then it else { it with yields := it.yields ++ [.fn f], signal := true }

/-- `stop(err)`. -/
def stop (it : QueuedIterator α φ E) (err : Option E) : QueuedIterator α φ E :=
  if it.done then it
  else { it with err := err, done := true, signal := true, iterClosed := some err }

/-- The generator ends, with an exception or without; its `finally` stops the iterator. -/
def finish (it : QueuedIterator α φ E) (err : Option E) : QueuedIterator α φ E :=
  { it.stop none with consumer := .finished err }

/-- The top of the outer loop, the signal being awaited where it has to be: an error ends the
generator, and otherwise it takes what was pushed as its batch. -/
def takeBatch (it : QueuedIterator α φ E) : QueuedIterator α φ E :=
  match it.err with
  | some e => it.finish (some e)
  | none =>
      { it with inflight := it.yields.length, yields := [], consumer := .running it.yields }

/-- The generator leaves a suspension; `none` where it has to stay. -/
def resume (it : QueuedIterator α φ E) : Option (QueuedIterator α φ E) :=
  match it.consumer with
  | .idle => some (if it.yields = [] then { it with consumer := .waiting } else it.takeBatch)
  | .waiting => if it.signal then some it.takeBatch else none
  | .presenting _ batch =>
      some { it with inflight := it.inflight - 1, consumer := .running batch }
  | .running _ | .finished _ => none

/-- The effect of a function on the iterator. -/
def apply (it : QueuedIterator α φ E) (effect : Effect E) : QueuedIterator α φ E :=
  match effect.stops with
  | some err => it.stop err
  | none => it

section

variable (protocolFilterFn : α → Bool) (effect : φ → Effect E)

/-- One step of the running generator: the next element of the batch, or the end of the batch. -/
def tick (it : QueuedIterator α φ E) : QueuedIterator α φ E :=
  match it.consumer with
  | .running (.fn f :: batch) =>
      let it' := { it.apply (effect f) with called := it.called ++ [f] }
      match (effect f).throws with
      | some e => it'.finish (some e)
      | none =>
          -- the function may have set an error
          match it'.err with
          | some e => it'.finish (some e)
          | none => { it' with consumer := .running batch }
  | .running (.value v :: batch) =>
      if protocolFilterFn v then
        { it with
          processed := it.processed + 1
          yielded := it.yielded ++ [v]
          consumer := .presenting v batch }
      else
        { it with
          pendingFiltered := it.pendingFiltered - 1
          inflight := it.inflight - 1
          consumer := .running batch }
  | .running [] =>
      if it.done then it.finish none
      else if it.yields = [] then { it with signal := false, consumer := .waiting }
      else it.takeBatch
  | _ => it

/-- Steps until the generator is suspended. -/
def settle : Nat → QueuedIterator α φ E → QueuedIterator α φ E
  | 0, it => it
  | n + 1, it =>
      match it.consumer with
      | .running _ => settle n (tick protocolFilterFn effect it)
      | _ => it

/-- The generator runs from a suspension to the next one. -/
def next (it : QueuedIterator α φ E) : Option (QueuedIterator α φ E) :=
  it.resume.map fun it' =>
    settle protocolFilterFn effect (it'.consumer.batch.length + it'.yields.length + 3) it'

end

/-! ## From steps to runs of the generator -/

section

variable {protocolFilterFn : α → Bool} {effect : φ → Effect E} {it it' : QueuedIterator α φ E}

/-- **What every `resume` and every `tick` preserves, `next` preserves.** -/
theorem next_induction {I : QueuedIterator α φ E → Prop}
    (hresume : ∀ it it', I it → it.resume = some it' → I it')
    (htick : ∀ it, I it → it.consumer.isRunning = true → I (it.tick protocolFilterFn effect))
    (h : it.next protocolFilterFn effect = some it') (hit : I it) : I it' := by
  have hsettle : ∀ n it, I it → I (settle protocolFilterFn effect n it) := by
    intro n
    induction n with
    | zero =>
        intro it hit
        exact hit
    | succ n ih =>
        intro it hit
        cases hc : it.consumer with
        | running batch =>
            simp only [settle, hc]
            exact ih _ (htick it hit (by rw [hc]; rfl))
        | idle | waiting | presenting v batch | finished err =>
            simp only [settle, hc]
            exact hit
  cases hres : it.resume with
  | none =>
      simp only [next, hres, Option.map_none] at h
      cases h
  | some it₁ =>
      simp only [next, hres, Option.map_some, Option.some.injEq] at h
      rw [← h]
      exact hsettle _ it₁ (hresume it it₁ hit hres)

/-- The steps a running generator can still take. -/
def weight (it : QueuedIterator α φ E) : Nat :=
  match it.consumer with
  | .running batch => batch.length + 1 + (if it.yields = [] then 0 else it.yields.length + 1)
  | _ => 0

theorem yields_apply (it : QueuedIterator α φ E) (effect : Effect E) :
    (it.apply effect).yields = it.yields := by
  unfold apply stop
  cases effect.stops with
  | none => rfl
  | some err => by_cases hd : it.done = true <;> simp [hd]

theorem weight_finish (it : QueuedIterator α φ E) (err : Option E) :
    (it.finish err).weight = 0 := rfl

theorem weight_tick_lt (hrun : it.consumer.isRunning = true) :
    (it.tick protocolFilterFn effect).weight < it.weight := by
  cases hc : it.consumer with
  | idle | waiting | presenting v batch | finished err =>
      rw [hc] at hrun
      cases hrun
  | running batch =>
      have hweight : it.weight =
          batch.length + 1 + (if it.yields = [] then 0 else it.yields.length + 1) := by
        simp only [weight, hc]
      cases batch with
      | nil =>
          by_cases hdone : it.done = true
          · simp only [tick, hc, if_pos hdone, weight_finish, hweight]
            omega
          · by_cases hyields : it.yields = []
            · simp only [tick, hc, if_neg hdone, if_pos hyields, weight]
              omega
            · -- the queue becomes the batch, and the one above its length pays for the swap
              simp only [tick, hc, if_neg hdone, if_neg hyields, hweight, takeBatch]
              cases it.err with
              | some e => simp only [weight_finish]; omega
              | none => simp only [weight, if_true]; omega
      | cons item batch =>
          cases item with
          | value v =>
              by_cases hv : protocolFilterFn v = true
              · simp only [tick, hc, if_pos hv, weight]
                omega
              · simp only [tick, hc, if_neg hv, weight, List.length_cons]
                omega
          | fn f =>
              simp only [tick, hc, hweight]
              -- what the function does to the iterator leaves the queue as it is
              cases (effect f).throws with
              | some e => simp only [weight_finish]; omega
              | none =>
                  cases (it.apply (effect f)).err with
                  | some e => simp only [weight_finish]; omega
                  | none =>
                      simp only [weight, yields_apply, List.length_cons]
                      omega

theorem isRunning_settle {n : Nat} (h : it.weight ≤ n) :
    (settle protocolFilterFn effect n it).consumer.isRunning = false := by
  induction n generalizing it with
  | zero =>
      cases hc : it.consumer with
      | running batch =>
          simp only [weight, hc] at h
          omega
      | idle | waiting | presenting v batch | finished err =>
          simp only [settle, hc, Consumer.isRunning]
  | succ n ih =>
      cases hc : it.consumer with
      | running batch =>
          have hlt : (it.tick protocolFilterFn effect).weight < it.weight :=
            weight_tick_lt (by rw [hc]; rfl)
          simp only [settle, hc]
          exact ih (by omega)
      | idle | waiting | presenting v batch | finished err =>
          simp only [settle, hc, Consumer.isRunning]

/-- **The generator always reaches a suspension.** -/
theorem isRunning_next (h : it.next protocolFilterFn effect = some it') :
    it'.consumer.isRunning = false := by
  cases hres : it.resume with
  | none =>
      simp only [next, hres, Option.map_none] at h
      cases h
  | some it₁ =>
      simp only [next, hres, Option.map_some, Option.some.injEq] at h
      rw [← h]
      apply isRunning_settle
      cases hc : it₁.consumer with
      | running batch =>
          simp only [weight, hc, Consumer.batch]
          by_cases hyields : it₁.yields = []
          · rw [if_pos hyields]
            omega
          · rw [if_neg hyields]
            omega
      | idle | waiting | presenting v batch | finished err =>
          simp only [weight, hc]
          omega

end

end QueuedIterator

end NatsClient.Iterator
