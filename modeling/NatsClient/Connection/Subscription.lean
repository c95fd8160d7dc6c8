import NatsClient.Iterator.QueuedIterator

/-!
# A subscription

Model of `SubscriptionImpl` (`protocol.ts`): the fields of a subscription and what its own methods
do to it. What `unsubscribe` and `cancel` do to the subscription they are given is here too; the
table they remove it from belongs to the protocol handler.

A subscription with a callback closes at once. One with an iterator pushes the rest of its close
behind its messages (`closeFn`), so that it ends when the consumer gets there.
-/

set_option autoImplicit false

namespace NatsClient.Connection

open NatsClient.Iterator

/-- The function `close` pushes into the iterator. -/
inductive CloseFn where
  | closeFn
deriving DecidableEq, Repr

/-- The function stops the iterator; it resolves `closed` besides. -/
def closeEffect {E : Type} (_ : CloseFn) : Effect E := ⟨some none, none⟩

/-- The fields of `SubscriptionImpl`; `iter` holds those it inherits from `QueuedIteratorImpl`. -/
structure SubscriptionImpl (μ E : Type) where
  iter : QueuedIterator μ CloseFn E
  noIterator : Bool
  sid : Nat
  subject : String
  queue : Option String
  draining : Bool
  max : Option Nat
  timer : Bool
  closed : Bool
deriving DecidableEq, Repr

namespace SubscriptionImpl

variable {μ E : Type}

/-- The constructor, `callback` and `timeout` saying which options were given. -/
def new (subject : String) (queue : Option String) (max : Option Nat) (callback timeout : Bool) :
    SubscriptionImpl μ E where
  iter := .new
  noIterator := callback
  sid := 0
  subject := subject
  queue := queue
  draining := false
  max := max
  timer := timeout
  closed := false

/-- `received`, inherited. -/
def received (s : SubscriptionImpl μ E) : Nat := s.iter.received

/-- `isClosed()`. -/
def isClosed (s : SubscriptionImpl μ E) : Bool := s.iter.done

/-- `cancelTimeout()`. -/
def cancelTimeout (s : SubscriptionImpl μ E) : SubscriptionImpl μ E := { s with timer := false }

/-- `stop(err)`, inherited. -/
def stop (s : SubscriptionImpl μ E) (err : Option E) : SubscriptionImpl μ E :=
  { s with iter := s.iter.stop err }

/-- `close()`. -/
def close (s : SubscriptionImpl μ E) : SubscriptionImpl μ E :=
  if s.isClosed then s
  else if s.noIterator then { s.cancelTimeout.stop none with closed := true }
  else { s.cancelTimeout with iter := s.iter.pushFn .closeFn }

/-- `sub.received += 1` in `processMsg`. -/
def receive (s : SubscriptionImpl μ E) : SubscriptionImpl μ E :=
  { s with iter := { s.iter with received := s.iter.received + 1 } }

/-- What `unsub(s, max)` does to the subscription: nothing on a closed connection. -/
def unsub (s : SubscriptionImpl μ E) (max : Option Nat) (connectionClosed : Bool) :
    SubscriptionImpl μ E :=
  if connectionClosed then s else { s with max := max }

/-- The test of `unsubscribe` for cancelling at once. -/
def isSpent (s : SubscriptionImpl μ E) : Bool :=
  match s.max with
  | none => true
  | some m => m ≤ s.received

/-- The test of `processMsg`: the last message the subscription wants was received. -/
def reachedMax (s : SubscriptionImpl μ E) : Bool :=
  match s.max with
  | none => false
  | some m => m ≤ s.received

end SubscriptionImpl

end NatsClient.Connection
