import NatsClient.Connection.Handler

/-!
# A client and its server

The protocol handler together with the server it talks to, as far as subscriptions are concerned.
The server reads the frames of the transport in order (`take`), keeps an interest table for the
current connection, delivers messages to the sids in the table and answers PINGs. What it sends is
in flight (`inbound`) until the client reads it (`receive`). A dial starts with an empty table and
nothing in flight.

`served` and `dispatched` log the messages of the current connection that the server sent and that
the client found a subscription for.
-/

set_option autoImplicit false

namespace NatsClient.Connection

open NatsClient.Foundation

/-- An entry of the interest table: what was subscribed, and the number of messages behind which the
server removes it. -/
structure Interest where
  subject : String
  queue : Option String
  limit : Option Nat
deriving DecidableEq, Repr

/-- The server side of a connection: how many frames were read, the interest table, and how many
messages were delivered to each sid. -/
structure Server where
  taken : Nat
  interest : Nat → Option Interest
  delivered : Nat → Nat

/-- What the server sends; a PONG of the model carries the deferred of the PING it answers. -/
inductive Inbound (μ : Type) where
  | msg (sid : Nat) (v : μ)
  | pong (d : Nat)
deriving DecidableEq, Repr

namespace Server

/-- A new connection. -/
def new : Server := ⟨0, fun _ => none, fun _ => 0⟩

/-- The entry of a sid changes. -/
def setInterest (s : Server) (sid : Nat) (entry : Option Interest) : Server :=
  { s with interest := fun i => if i = sid then entry else s.interest i }

/-- The server reads a frame. A SUB for a sid in the table is ignored. -/
def read (s : Server) : Frame → Server
  | .command (.sub subject queue sid) =>
      match s.interest sid with
      | none => s.setInterest sid (some ⟨subject, queue, none⟩)
      | some _ => s
  | .command (.unsub sid none) => s.setInterest sid none
  | .command (.unsub sid (some max)) =>
      match s.interest sid with
      | none => s
      | some entry =>
          if max ≤ s.delivered sid then s.setInterest sid none
          else s.setInterest sid (some { entry with limit := some max })
  | .command (.pub _ _) | .connect _ | .ping _ | .pong => s

/-- The answer to a frame. -/
def answer {μ : Type} : Frame → List (Inbound μ)
  | .ping d => [.pong d]
  | .connect _ | .pong | .command _ => []

/-- One more message was delivered to a sid with this entry. -/
def deliver (s : Server) (sid : Nat) (entry : Interest) : Server :=
  let count := s.delivered sid + 1
  let s := { s with delivered := fun i => if i = sid then count else s.delivered i }
  match entry.limit with
  | some max => if max ≤ count then s.setInterest sid none else s
  | none => s

end Server

/-- The client, the server, and what is in flight from the server to the client. -/
structure Session (μ E : Type) where
  client : ProtocolHandler μ E
  server : Server
  inbound : List (Inbound μ)
  served : List (Nat × μ)
  dispatched : List (Nat × μ)

namespace Session

variable {μ E : Type}

/-- Nothing is connected yet. -/
def new (pendingLimit maxOut : Nat) : Session μ E := ⟨.new pendingLimit maxOut, .new, [], [], []⟩

/-- What can happen. What the client reads is `receive`, with the calls a callback makes. -/
inductive Event (μ E : Type) where
  | client (e : ProtocolHandler.Event μ E)
  | receive (cs : List Call)
  | take
  | deliver (sid : Nat) (v : μ)

/-- A dial starts. -/
def isPrepare : ProtocolHandler.Event μ E → Bool
  | .link .prepare => true
  | _ => false

/-- The event is a frame that was read. -/
def isFrame : ProtocolHandler.Event μ E → Bool
  | .message _ _ _ | .link .pong => true
  | _ => false

/-- One event; `none` where it cannot happen. -/
def step (s : Session μ E) : Event μ E → Option (Session μ E)
  | .client e =>
      -- frames come from the server only
      if isFrame e then none
      else
        match s.client.step e with
        | some client =>
            -- what the old connection had on its way is lost
            if isPrepare e then some ⟨client, .new, [], [], []⟩
            else some { s with client := client }
        | none => none
  | .receive cs =>
      match s.inbound with
      | [] => none
      | .msg sid v :: inbound =>
          some { s with
            client := s.client.processMsg sid v cs
            inbound := inbound
            dispatched :=
              -- a message without a subscription is dropped
              if (s.client.get sid).isSome then s.dispatched ++ [(sid, v)] else s.dispatched }
      | .pong _ :: inbound =>
          some { s with
            client := { s.client with link := s.client.link.processPong }
            inbound := inbound }
  | .take =>
      match s.client.link.transport.sent[s.server.taken]? with
      | some frame =>
          some { s with
            server := { s.server.read frame with taken := s.server.taken + 1 }
            inbound := s.inbound ++ Server.answer frame }
      | none => none
  | .deliver sid v =>
      match s.server.interest sid with
      | some entry =>
          some { s with
            server := s.server.deliver sid entry
            inbound := s.inbound ++ [.msg sid v]
            served := s.served ++ [(sid, v)] }
      | none => none

/-- What a step can be. -/
inductive Step : Session μ E → Event μ E → Session μ E → Prop
  | dial {s : Session μ E} {l : Link} (link : s.client.link.step .prepare = some l) :
      Step s (.client (.link .prepare)) ⟨s.client.setLink l, .new, [], [], []⟩
  | client {s : Session μ E} {e : ProtocolHandler.Event μ E} {client : ProtocolHandler μ E}
      (frame : ¬ isFrame e = true) (prepare : ¬ isPrepare e = true)
      (step : s.client.step e = some client) :
      Step s (.client e) { s with client := client }
  | message {s : Session μ E} {sid : Nat} {v : μ} {cs : List Call} {inbound : List (Inbound μ)}
      (read : s.inbound = .msg sid v :: inbound) :
      Step s (.receive cs)
        { s with
          client := s.client.processMsg sid v cs
          inbound := inbound
          dispatched :=
            if (s.client.get sid).isSome then s.dispatched ++ [(sid, v)] else s.dispatched }
  | pong {s : Session μ E} {d : Nat} {cs : List Call} {inbound : List (Inbound μ)}
      (read : s.inbound = .pong d :: inbound) :
      Step s (.receive cs)
        { s with
          client := { s.client with link := s.client.link.processPong }
          inbound := inbound }
  | take {s : Session μ E} {f : Frame}
      (sent : s.client.link.transport.sent[s.server.taken]? = some f) :
      Step s .take
        { s with
          server := { s.server.read f with taken := s.server.taken + 1 }
          inbound := s.inbound ++ Server.answer f }
  | deliver {s : Session μ E} {sid : Nat} {v : μ} {entry : Interest}
      (interest : s.server.interest sid = some entry) :
      Step s (.deliver sid v)
        { s with
          server := s.server.deliver sid entry
          inbound := s.inbound ++ [.msg sid v]
          served := s.served ++ [(sid, v)] }

theorem step_of_eq {s s' : Session μ E} {e : Event μ E} (hstep : s.step e = some s') :
    Step s e s' := by
  cases e with
  | client e =>
      obtain ⟨hframe, hstep⟩ := Option.ite_none_left_eq_some.1 hstep
      split at hstep
      · next client hclient =>
        split at hstep
        · next hprepare =>
          cases hstep
          cases e with
          | link e =>
              cases e with
              | prepare =>
                  simp only [ProtocolHandler.step, Option.ite_none_right_eq_some,
                    Option.map_eq_some_iff] at hclient
                  -- `prepare` makes a new connection, and so a new server
                  obtain ⟨-, l, hl, rfl⟩ := hclient
                  exact .dial hl
              | _ => cases hprepare
          | _ => cases hprepare
        · next hprepare =>
          cases hstep
          exact .client hframe hprepare hclient
      · cases hstep
  | receive cs =>
      cases hread : s.inbound with
      | nil =>
          simp only [step, hread] at hstep
          cases hstep
      | cons x inbound =>
          cases x with
          | msg sid v =>
              simp only [step, hread] at hstep
              cases hstep
              exact .message hread
          | pong d =>
              simp only [step, hread] at hstep
              cases hstep
              exact .pong hread
  | take =>
      simp only [step] at hstep
      split at hstep
      · next f hsent =>
        cases hstep
        exact .take hsent
      · cases hstep
  | deliver sid v =>
      simp only [step] at hstep
      split at hstep
      · next entry hinterest =>
        cases hstep
        exact .deliver hinterest
      · cases hstep

end Session

end NatsClient.Connection
