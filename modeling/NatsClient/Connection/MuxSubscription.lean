import NatsClient.Connection.Requests

/-!
# The mux subscription

Model of `MuxSubscription` (`muxsubscription.ts`) with the requests in its map, `RequestOne` and
`RequestMany` (`request.ts`), and of what the calls `request` and `requestMany` (`nats.ts`),
`initMux` and `processError` (`protocol.ts`) do to them. Replies, timers, cancellations, permission
errors and the close come in any order, and the callback of a subscription that gets an error may
make calls itself. A closed connection is not told apart: that its publish throws is part of the
call. The nuids are a parameter.

What is queued behind a timer or a promise runs before anything else happens: a `RequestOne` whose
timer fires is cancelled at once.

* `follows_resolver`: a request stays the one it is, and what took itself off the map is over;
* `replies_reply`, `outcomes_error`: what a request that is not over is given.
-/

set_option autoImplicit false

namespace NatsClient.Connection.Mux

open NatsClient.Foundation NatsClient.Wire

/-- The errors that a request ends with. -/
inductive RequestError where
  | noResponders
  | timeout
  | cancelled
  | permissions (ctx : PermissionContext)
  | thrown (err : RequestFailure)
deriving DecidableEq, Repr

/-- What of a message is used; `code` is that of its headers, if it has headers. -/
structure Msg where
  subject : String
  data : Bytes
  code : Option Int
deriving DecidableEq, Repr

/-- `isRequestError(msg)`. -/
def isRequestError (msg : Msg) : Option RequestError :=
  if msg.data = [] ∧ msg.code = some 503 then some .noResponders else none

/-- What a request is given: a reply, or an error. -/
inductive Outcome where
  | reply (msg : Msg)
  | error (err : RequestError)
deriving DecidableEq, Repr

/-- The reply among the outcomes. -/
def Outcome.msg? : Outcome → Option Msg
  | reply msg => some msg
  | error _ => none

/-- `RequestOne`; `settled` is what the race of its timer and its deferred ends with. -/
structure RequestOne where
  token : String
  requestSubject : String
  timer : Bool
  settled : Option Outcome
deriving DecidableEq, Repr

/-- `RequestMany`; `calls` are those of its callback, but for the one without a message behind
`done`. -/
structure RequestMany where
  token : String
  requestSubject : String
  strategy : RequestStrategy
  max : Int
  timer : Bool
  done : Bool
  calls : List Outcome
deriving DecidableEq, Repr

/-- A request. -/
inductive Request where
  | one (r : RequestOne)
  | many (r : RequestMany)
deriving DecidableEq, Repr

namespace Request

/-- `token`. -/
def token : Request → String
  | one r => r.token
  | many r => r.token

/-- `requestSubject`. -/
def requestSubject : Request → String
  | one r => r.requestSubject
  | many r => r.requestSubject

/-- Its timer runs. -/
def timer : Request → Bool
  | one r => r.timer
  | many r => r.timer

/-- It is over. -/
def ended : Request → Bool
  | one r => r.settled.isSome
  | many r => r.done

/-- What it was given. -/
def outcomes : Request → List Outcome
  | one r => r.settled.toList
  | many r => r.calls

/-- The replies it was given. -/
def replies (r : Request) : List Msg := r.outcomes.filterMap Outcome.msg?

/-- `cancel(err)`, but for the map. -/
def cancel (err : Option RequestError) : Request → Request
  | one r =>
      one { r with timer := false, settled := some (r.settled.getD (.error (err.getD .cancelled))) }
  | many r =>
      many
        { r with calls := r.calls ++ (err.map Outcome.error).toList, timer := false, done := true }

/-- `resolver(err, msg)`, and whether it cancelled the request. -/
def resolver (x : Outcome) : Request → Request × Bool
  | one r => ((one { r with timer := false, settled := some (r.settled.getD x) }).cancel none, true)
  | many r =>
      match x with
      | .error err => ((many r).cancel (some err), true)
      | .reply msg =>
          let called := { r with calls := r.calls ++ [.reply msg] }
          match r.strategy with
          | .timer => (many called, false)
          | .count =>
              let counted := { called with max := r.max - 1 }
              if counted.max = 0 then ((many counted).cancel none, true) else (many counted, false)
          | .jitterTimer => (many { called with timer := true }, false)
          | .sentinelMsg =>
              if msg.data = [] then ((many called).cancel none, true) else (many called, false)

/-- The timer fires: that of a `RequestOne` ends the race, and cancels it; that of a `RequestMany`
cancels it. -/
def expire : Request → Request
  | one r => (one { r with settled := some (r.settled.getD (.error .timeout)) }).cancel none
  | many r => (many r).cancel none

end Request

/-- A call of `request`, or of `requestMany` with its strategy and `maxMessages`, and what its
publish throws. -/
structure NewRequest where
  requestSubject : String
  many : Option (RequestStrategy × Option Int)
  thrown : Option RequestFailure
deriving DecidableEq, Repr

/-- The constructors of `RequestOne` and `RequestMany`. -/
def NewRequest.object (q : NewRequest) (token : String) : Request :=
  match q.many with
  | none => .one ⟨token, q.requestSubject, true, none⟩
  | some (strategy, maxMessages) =>
      .many ⟨token, q.requestSubject, strategy, ((maxMessages.filter (0 < ·)).getD (-1)),
        true, false, []⟩

/-- The fields of `MuxSubscription`, the subject of the subscription that is its own (`getMux()`),
and the requests ever made, to whose numbers the map leads. `published` logs the number of each
request that was published with its subject and its reply subject, `inboxes` the inboxes; `nuids`
are the nuids drawn. -/
structure MuxSubscription where
  baseInbox : Option String
  reqs : OrderedMap String Nat
  mux : Option String
  objs : List Request
  published : List (Nat × String × String)
  inboxes : List String
  nuids : Nat

/-- What a callback may do: make a request, draw a nuid for something else, or close the
connection. -/
inductive MuxCall where
  | request (q : NewRequest)
  | draw
  | close
deriving DecidableEq, Repr

/-- What can happen: a call, a message for the mux subscription, a timer that fires, a request that
is cancelled by what waits for it, and a permission error with the calls of the callback it gets
to. -/
inductive MuxEvent where
  | call (c : MuxCall)
  | message (msg : Msg)
  | timer (i : Nat)
  | cancel (i : Nat) (err : Option RequestError)
  | error (ctx : PermissionContext) (cs : List MuxCall)
deriving DecidableEq, Repr

namespace MuxSubscription

/-- The constructor. -/
def new : MuxSubscription := ⟨none, .empty, none, [], [], [], 0⟩

/-- A method of request `i` leaves it as `r`, and off the map if it took itself off. -/
def update (s : MuxSubscription) (i : Nat) (r : Request) (off : Bool) : MuxSubscription :=
  { s with objs := s.objs.set i r, reqs := if off then s.reqs.delete r.token else s.reqs }

/-- `cancel(err)` of a request. -/
def cancel (s : MuxSubscription) (i : Nat) (err : Option RequestError) : MuxSubscription :=
  match s.objs[i]? with
  | none => s
  | some r => s.update i (r.cancel err) true

/-- `resolver(err, msg)` of a request. -/
def resolver (s : MuxSubscription) (i : Nat) (x : Outcome) : MuxSubscription :=
  match s.objs[i]? with
  | none => s
  | some r => s.update i (r.resolver x).1 (r.resolver x).2

/-- `getToken(m)`. -/
def getToken (s : MuxSubscription) (m : Msg) : Option String :=
  s.baseInbox.bind fun base =>
    if base.toList.isPrefixOf m.subject.toList then
      some (String.ofList (m.subject.toList.drop base.toList.length))
    else none

/-- `dispatcher()` on a message. -/
def dispatcher (s : MuxSubscription) (m : Msg) : MuxSubscription :=
  match s.getToken m with
  | none => s
  | some token =>
      if token = "" then s
      else
        match s.reqs.get token with
        | none => s
        | some i =>
            match isRequestError m with
            | some err => s.resolver i (.error err)
            | none => s.resolver i (.reply m)

/-- `all()`. -/
def all (s : MuxSubscription) : List Nat := s.reqs.values

/-- The resolvers of some requests are called with an error. -/
def resolveAll (s : MuxSubscription) (err : RequestError) (is : List Nat) : MuxSubscription :=
  is.foldl (fun s i => s.resolver i (.error err)) s

/-- `handleError(isMuxPermissionError, err)`. -/
def handleError (s : MuxSubscription) (isMuxPermissionError : Bool) (ctx : PermissionContext) :
    MuxSubscription :=
  if isMuxPermissionError then s.resolveAll (.permissions ctx) s.all
  else
    match ctx.operation with
    | .subscription => s
    | .publish =>
        match s.all.find? fun i => (s.objs[i]?).any fun r => r.requestSubject = ctx.subject with
        | some i => s.resolver i (.error (.permissions ctx))
        | none => s

/-- `close()`. -/
def close (s : MuxSubscription) : MuxSubscription := s.resolveAll .timeout s.all

/-- `add(r)` of a new request. -/
def add (s : MuxSubscription) (r : Request) : MuxSubscription :=
  { s with reqs := s.reqs.set r.token s.objs.length, objs := s.objs ++ [r] }

section

variable (nuid : Nat → String) (inboxPrefix : String)

/-- The inbox of `init(prefix)`. -/
def inboxOf (n : Nat) : String :=
  (if inboxPrefix = "" then "_INBOX" else inboxPrefix) ++ "." ++ nuid n ++ "."

/-- `initMux()`. -/
def initMux (s : MuxSubscription) : MuxSubscription :=
  match s.mux with
  | some _ => s
  | none =>
      let inbox := inboxOf nuid inboxPrefix s.nuids
      { s with
        baseInbox := some inbox
        mux := some (inbox ++ "*")
        inboxes := s.inboxes ++ [inbox]
        nuids := s.nuids + 1 }

/-- `request(subject, data, opts)` and `requestMany(subject, data, opts)`, from where the token is
drawn. -/
def request (s : MuxSubscription) (q : NewRequest) : MuxSubscription :=
  let i := s.objs.length
  let r := q.object (nuid s.nuids)
  let s := (initMux nuid inboxPrefix { s with nuids := s.nuids + 1 }).add r
  match q.thrown with
  | some err => s.cancel i (some (.thrown err))
  | none =>
      { s with published := s.published ++ [(i, q.requestSubject, s.baseInbox.getD "" ++ r.token)] }

/-- A call. -/
def call (s : MuxSubscription) : MuxCall → MuxSubscription
  | .request q => s.request nuid inboxPrefix q
  | .draw => { s with nuids := s.nuids + 1 }
  | .close => s.close

/-- Calls one after the other. -/
def calls (s : MuxSubscription) (cs : List MuxCall) : MuxSubscription :=
  cs.foldl (call nuid inboxPrefix) s

/-- `processError(m)` of a permission error; the callback that gets the error makes its calls in
`subscriptions.handleError(err)`. -/
def processError (s : MuxSubscription) (ctx : PermissionContext) (cs : List MuxCall) :
    MuxSubscription :=
  let isMuxPermissionError : Bool := s.mux = some ctx.subject
  let s := (s.calls nuid inboxPrefix cs).handleError isMuxPermissionError ctx
  -- enable it to be recreated
  if isMuxPermissionError then { s with mux := none } else s

/-- One event; `none` where it cannot happen. -/
def step (s : MuxSubscription) : MuxEvent → Option MuxSubscription
  | .call c => some (s.call nuid inboxPrefix c)
  | .message m => some (s.dispatcher m)
  -- only a timer that is set can fire
  | .timer i => (s.objs[i]?.filter Request.timer).map fun r => s.update i r.expire true
  | .cancel i err => some (s.cancel i err)
  | .error ctx cs => some (s.processError nuid inboxPrefix ctx cs)

/-- The map is right: it has the requests that are not over, each under its own token, with which it
was published under the current inbox. -/
structure Correlated (s : MuxSubscription) : Prop where
  entry : ∀ token i, s.reqs.get token = some i → ∃ r base, s.objs[i]? = some r ∧ r.token = token ∧
    r.ended = false ∧ s.baseInbox = some base ∧ (i, r.requestSubject, base ++ token) ∈ s.published
  all : ∀ i, i ∈ s.all ↔ ∃ r, s.objs[i]? = some r ∧ r.ended = false
  removed : ∀ i r, s.objs[i]? = some r → r.ended = true → i ∉ s.all ∧ s.reqs.get r.token = none

/-- What a request gets from an event: no reply, or the message, if it carries the token of the
request and that is not over. What is over stays over. -/
structure Hears (s : MuxSubscription) (e : MuxEvent) (r r' : Request) : Prop where
  token : r'.token = r.token
  stays : r.ended = true → r'.ended = true
  replies : r'.replies = r.replies ∨ ∃ m base, e = .message m ∧ r.ended = false ∧
    s.baseInbox = some base ∧ m.subject = base ++ r.token ∧ r'.replies = r.replies ++ [m]

/-- These requests end with an error, and no others. -/
structure Ends (is : List Nat) (err : RequestError) (s s' : MuxSubscription) : Prop where
  ended : ∀ i ∈ is, ∃ r r', s.objs[i]? = some r ∧ r.ended = false ∧ s'.objs[i]? = some r' ∧
    r'.ended = true ∧ r'.outcomes = r.outcomes ++ [.error err]
  others : ∀ i ∉ is, s'.objs[i]? = s.objs[i]?

/-- A permission error ends one request on its subject, if there is any. -/
def EndsOne (ctx : PermissionContext) (s s' : MuxSubscription) : Prop :=
  (∃ i r, s.objs[i]? = some r ∧ r.ended = false ∧ r.requestSubject = ctx.subject ∧
    Ends [i] (.permissions ctx) s s') ∨
  (∀ (i : Nat) (r : Request), s.objs[i]? = some r → r.ended = false →
    r.requestSubject ≠ ctx.subject) ∧ Ends [] (.permissions ctx) s s'

/-- A permission error ends all requests, and those published behind it have an inbox that was not
there before. -/
structure EndsAll (ctx : PermissionContext) (s s' : MuxSubscription) : Prop where
  ends : Ends s.all (.permissions ctx) s s'
  all : s'.all = []
  fresh : ∀ es s'', run (step nuid inboxPrefix) s' es = some s'' →
    ∃ later, s''.published = s'.published ++ later ∧ ∀ p ∈ later, ∃ r, s''.objs[p.1]? = some r ∧
      ∃ base ∈ s''.inboxes, base ∉ s'.inboxes ∧ p.2 = (r.requestSubject, base ++ r.token)

end

end MuxSubscription

/-! ## What a method does to a request -/

namespace Request

variable {r r' : Request} {off : Bool}

/-- A request stays the one it is, and is over behind a cancel. -/
structure Follows (r r' : Request) (off : Bool) : Prop where
  token : r'.token = r.token
  requestSubject : r'.requestSubject = r.requestSubject
  ended : r'.ended = (r.ended || off)

theorem follows_cancel (r : Request) (err : Option RequestError) :
    r.Follows (r.cancel err) true := by
  cases r with
  | one r => exact ⟨rfl, rfl, (Bool.or_true _).symm⟩
  | many r => exact ⟨rfl, rfl, (Bool.or_true _).symm⟩

theorem follows_expire (r : Request) : r.Follows r.expire true := by
  cases r with
  | one r => exact ⟨rfl, rfl, (Bool.or_true _).symm⟩
  | many r => exact ⟨rfl, rfl, (Bool.or_true _).symm⟩

theorem follows_resolver (r : Request) (x : Outcome) :
    r.Follows (r.resolver x).1 (r.resolver x).2 := by
  cases r with
  | one r => exact ⟨rfl, rfl, (Bool.or_true _).symm⟩
  | many r =>
      cases x with
      | error err => exact ⟨rfl, rfl, (Bool.or_true _).symm⟩
      | reply msg =>
          simp only [resolver]
          split
          · exact ⟨rfl, rfl, (Bool.or_false _).symm⟩
          · split
            · exact ⟨rfl, rfl, (Bool.or_true _).symm⟩
            · exact ⟨rfl, rfl, (Bool.or_false _).symm⟩
          · exact ⟨rfl, rfl, (Bool.or_false _).symm⟩
          · split
            · exact ⟨rfl, rfl, (Bool.or_true _).symm⟩
            · exact ⟨rfl, rfl, (Bool.or_false _).symm⟩

theorem replies_cancel (r : Request) (err : Option RequestError) :
    (r.cancel err).replies = r.replies := by
  cases r with
  | one r => cases hsettled : r.settled <;> simp [cancel, replies, outcomes, hsettled, Outcome.msg?]
  | many r => cases err <;> simp [cancel, replies, outcomes, Outcome.msg?]

theorem replies_expire (r : Request) : r.expire.replies = r.replies := by
  cases r with
  | one r =>
      cases hsettled : r.settled <;>
        simp [expire, cancel, replies, outcomes, hsettled, Outcome.msg?]
  | many r => exact replies_cancel (many r) none

theorem replies_error (r : Request) (err : RequestError) :
    (r.resolver (.error err)).1.replies = r.replies := by
  cases r with
  | one r =>
      cases hsettled : r.settled <;>
        simp [resolver, cancel, replies, outcomes, hsettled, Outcome.msg?]
  | many r => exact replies_cancel (many r) (some err)

/-- An error ends a request that is not over. -/
theorem outcomes_error (hopen : r.ended = false) (err : RequestError) :
    (r.resolver (.error err)).1.outcomes = r.outcomes ++ [.error err] := by
  cases r with
  | one r =>
      have hsettled : r.settled = none :=
        Option.not_isSome_iff_eq_none.1 (by simpa [ended] using hopen)
      simp [resolver, cancel, outcomes, hsettled]
  | many r => rfl

theorem off_error (r : Request) (err : RequestError) : (r.resolver (.error err)).2 = true := by
  cases r <;> rfl

/-- A request that is not over gets its reply. -/
theorem replies_reply (hopen : r.ended = false) (m : Msg) :
    (r.resolver (.reply m)).1.replies = r.replies ++ [m] := by
  cases r with
  | one r =>
      have hsettled : r.settled = none :=
        Option.not_isSome_iff_eq_none.1 (by simpa [ended] using hopen)
      simp [resolver, cancel, replies, outcomes, hsettled, Outcome.msg?]
  | many r =>
      simp only [resolver]
      split
      · simp [replies, outcomes, Outcome.msg?]
      · split
        · simp [cancel, replies, outcomes, Outcome.msg?]
        · simp [replies, outcomes, Outcome.msg?]
      · simp [replies, outcomes, Outcome.msg?]
      · split
        · simp [cancel, replies, outcomes, Outcome.msg?]
        · simp [replies, outcomes, Outcome.msg?]

end Request

end NatsClient.Connection.Mux
