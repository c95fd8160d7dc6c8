import NatsClient.Foundation.Run
import NatsClient.Wire.Headers

/-!
# Acknowledgements

Model of the calls of `JsMsgImpl` (`jsmsg.ts`) that publish to the reply subject of a message.
`doAck` and `ackAck` publish nothing where `didAck` is set, and set it unless they publish `+WPI`,
which is no final acknowledgement. `next` neither reads nor sets it. So a `next` publishes behind a
final acknowledgement, and the others publish behind a `next` (`oneFinal_iff_meets`).

A publish throws on a payload that the server does not take; its limit comes with each call. The
reply of the server to an `ackAck`, or its timeout, is an event of its own.
-/

set_option autoImplicit false

namespace NatsClient.JetStream

open NatsClient.Foundation NatsClient.Wire

/-- `ACK`. -/
def ACK : Bytes := [43, 65, 67, 75]

/-- `NAK`. -/
def NAK : Bytes := [45, 78, 65, 75]

/-- `WPI`. -/
def WPI : Bytes := [43, 87, 80, 73]

/-- `NXT`. -/
def NXT : Bytes := [43, 78, 88, 84]

/-- `TERM`. -/
def TERM : Bytes := [43, 84, 69, 82, 77]

/-- `SPACE`. -/
def SPACE : Bytes := [32]

/-- `ErrorCode.MaxPayloadExceeded`. -/
def maxPayloadExceeded : String := "MAX_PAYLOAD_EXCEEDED"

/-- `ErrorCode.Timeout`. -/
def timeoutCode : String := "TIMEOUT"

/-- What was published to the reply subject, with the reply subject of its own. -/
structure Acknowledgement where
  payload : Bytes
  reply : Option String
deriving DecidableEq, Repr

/-- `PullOptions`, as far as `next` reads them; `0` is what is not given. -/
structure NextOptions where
  batch : Int
  noWait : Bool
  expires : Int
deriving DecidableEq, Repr

/-- The calls, the inbox of an `ackAck` being given, and what settles an `ackAck` that waits. -/
inductive AckCall where
  | ack
  | nak (millis : Int)
  | working
  | next (subj : String) (opts : NextOptions)
  | term (reason : String)
  | ackAck (inbox : String)
  | settled (replied : Bool)
deriving DecidableEq, Repr

/-- How a call ends; a promise that is not settled is pending. -/
inductive AckResult where
  | returned
  | threw (code : String)
  | resolved (acked : Bool)
  | rejected (code : String)
  | pending
deriving DecidableEq, Repr

/-- The fields of `JsMsgImpl` that these calls use, with the reply subject of its message, what was
published to that, and whether an `ackAck` waits. -/
structure JsMsgImpl where
  reply : String
  didAck : Bool
  published : List Acknowledgement
  waiting : Bool
deriving DecidableEq, Repr

namespace JsMsgImpl

/-- The constructor. -/
def new (reply : String) : JsMsgImpl := ⟨reply, false, [], false⟩

/-- `isWIP(p)`. -/
def isWIP (p : Bytes) : Bool := p = WPI

/-- The server takes the payload: it gave no limit, or the payload is within it. -/
def fits (maxPayload : Option Nat) (payload : Bytes) : Bool :=
  match maxPayload with
  | none => true
  | some max => payload.length ≤ max

/-- `publish(this.reply, payload, ..)`, which throws on a payload above the limit. -/
def publish (s : JsMsgImpl) (maxPayload : Option Nat) (payload : Bytes) (reply : Option String) :
    JsMsgImpl × Option String :=
  if fits maxPayload payload then ({ s with published := s.published ++ [⟨payload, reply⟩] }, none)
  else (s, some maxPayloadExceeded)

/-- `this.msg.respond(payload, opts)`. -/
def respond (s : JsMsgImpl) (maxPayload : Option Nat) (payload : Bytes) (reply : Option String) :
    JsMsgImpl × AckResult :=
  if s.reply = "" then (s, .returned)
  else
    match s.publish maxPayload payload reply with
    | (s, none) => (s, .returned)
    | (s, some code) => (s, .threw code)

/-- `doAck(payload)`: all acks are final with the exception of `+WPI`. -/
def doAck (s : JsMsgImpl) (maxPayload : Option Nat) (payload : Bytes) : JsMsgImpl × AckResult :=
  if s.didAck then (s, .returned)
  else { s with didAck := !isWIP payload }.respond maxPayload payload none

/-- `nanos(millis)`. -/
def nanos (millis : Int) : Int := millis.sign * f64 (millis.natAbs * 1000000)

/-- A number in a text. -/
def numeral (n : Int) : String := String.ofList (numberText n)

/-- The payload of `nak(millis)`. -/
def nakPayload (millis : Int) : Bytes :=
  if millis = 0 then NAK else encode ("-NAK \x7b\"delay\":" ++ numeral (nanos millis) ++ "\x7d")

/-- The payload of `term(reason)`. -/
def termPayload (reason : String) : Bytes :=
  if reason = "" then TERM else encode ("+TERM " ++ reason)

/-- The payload of `next(subj, opts)`. -/
def nextPayload (opts : NextOptions) : Bytes :=
  let batch := if opts.batch = 0 then 1 else opts.batch
  let args :=
    "\x7b\"batch\":" ++ numeral batch ++ ",\"no_wait\":" ++
      (if opts.noWait then "true" else "false") ++
    (if 0 < opts.expires then ",\"expires\":" ++ numeral (nanos opts.expires) else "") ++ "\x7d"
  NXT ++ (SPACE ++ encode args)

/-- `next(subj, opts)`. -/
def next (s : JsMsgImpl) (maxPayload : Option Nat) (subj : String) (opts : NextOptions) :
    JsMsgImpl × AckResult :=
  s.respond maxPayload (nextPayload opts) (if subj = "" then none else some subj)

/-- `ackAck(opts)`, up to its wait. -/
def ackAck (s : JsMsgImpl) (maxPayload : Option Nat) (inbox : String) : JsMsgImpl × AckResult :=
  if s.didAck then (s, .resolved false)
  else
    let s := { s with didAck := true }
    if s.reply = "" then (s, .resolved false)
    else
      match s.publish maxPayload ACK (some inbox) with
      | (s, none) => ({ s with waiting := true }, .pending)
      | (s, some code) => (s, .rejected code)

/-- The end of the wait. -/
def settle (s : JsMsgImpl) (replied : Bool) : JsMsgImpl × AckResult :=
  ({ s with waiting := false }, if replied then .resolved true else .rejected timeoutCode)

/-- A call, under the limit that the server gave. -/
def call (s : JsMsgImpl) (maxPayload : Option Nat) : AckCall → JsMsgImpl × AckResult
  | .ack => s.doAck maxPayload ACK
  | .nak millis => s.doAck maxPayload (nakPayload millis)
  | .working => s.doAck maxPayload WPI
  | .next subj opts => s.next maxPayload subj opts
  | .term reason => s.doAck maxPayload (termPayload reason)
  | .ackAck inbox => s.ackAck maxPayload inbox
  | .settled replied => if s.waiting then s.settle replied else (s, .returned)

/-- The message behind a call. -/
def step (s : JsMsgImpl) (e : Option Nat × AckCall) : JsMsgImpl := (s.call e.1 e.2).1

end JsMsgImpl

/-! ## Final acknowledgements -/

namespace Acknowledgement

/-- It ends the work on the message. -/
def isFinal (p : Acknowledgement) : Bool := !JsMsgImpl.isWIP p.payload

/-- It is from `next`. -/
def isNext (p : Acknowledgement) : Bool := p.payload.take 4 = NXT

theorem isFinal_of_isNext {p : Acknowledgement} (h : p.isNext = true) : p.isFinal = true := by
  rw [isNext, decide_eq_true_eq] at h
  rw [isFinal, JsMsgImpl.isWIP, Bool.not_eq_true', decide_eq_false_iff_not]
  intro hwip
  rw [hwip] at h
  revert h
  decide

end Acknowledgement

/-- At most one final acknowledgement, and nothing behind it. -/
structure OneFinal (published : List Acknowledgement) : Prop where
  once : (published.filter (·.isFinal)).length ≤ 1
  last : ∀ pre p post, published = pre ++ p :: post → p.isFinal = true → post = []

/-- Nothing but the last publication is final. -/
theorem oneFinal_concat (published : List Acknowledgement) (p : Acknowledgement) :
    OneFinal (published ++ [p]) ↔ ∀ x ∈ published, x.isFinal = false := by
  constructor
  · intro h x hx
    obtain ⟨pre, post, rfl⟩ := List.append_of_mem hx
    cases hfinal : x.isFinal with
    | false => rfl
    | true =>
        have hnil := h.last pre x (post ++ [p]) (by rw [List.append_assoc, List.cons_append]) hfinal
        exact absurd hnil (by simp)
  · intro h
    have hnone : published.filter (·.isFinal) = [] := by
      rw [List.filter_eq_nil_iff]
      intro x hx
      rw [h x hx]
      exact Bool.false_ne_true
    refine ⟨?_, fun pre x post heq hfinal => ?_⟩
    · rw [List.filter_append, hnone, List.nil_append]
      exact List.length_filter_le _ [p]
    · -- a final one that is not the last would be among those in front
      rcases List.eq_nil_or_concat post with rfl | ⟨front, last, rfl⟩
      · rfl
      · rw [List.concat_eq_append, ← List.cons_append, ← List.append_assoc] at heq
        have hfront := (List.append_inj' heq rfl).1
        have hfalse := h x (by rw [hfront]; exact List.mem_append_right _ (List.mem_cons_self ..))
        rw [hfinal] at hfalse
        cases hfalse

theorem OneFinal.nil : OneFinal [] where
  once := Nat.zero_le 1
  last := fun pre p post heq => by
    cases pre with
    | nil => cases heq
    | cons q pre => cases heq

namespace JsMsgImpl

/-- A final acknowledgement was published. -/
def Finished (s : JsMsgImpl) : Prop := ∃ p ∈ s.published, p.isFinal = true

/-- A `next` was published. -/
def Nexted (s : JsMsgImpl) : Prop := ∃ p ∈ s.published, p.isNext = true

/-- The message can be replied to, and the server takes the payload. -/
def Takes (s : JsMsgImpl) (maxPayload : Option Nat) (payload : Bytes) : Prop :=
  s.reply ≠ "" ∧ fits maxPayload payload = true

/-- What the calls other than `next` publish. -/
def ackPayload : AckCall → Option Bytes
  | .ack | .ackAck _ => some ACK
  | .nak millis => some (nakPayload millis)
  | .working => some WPI
  | .term reason => some (termPayload reason)
  | .next _ _ | .settled _ => none

/-- A `next` that is published is the first final acknowledgement, and no other call publishes
behind a `next`. -/
def Spares (s : JsMsgImpl) (e : Option Nat × AckCall) : Prop :=
  match e.2 with
  | .next _ opts => s.Takes e.1 (nextPayload opts) → ¬ s.Finished
  | c =>
      ∀ payload, ackPayload c = some payload → s.Takes e.1 payload → s.didAck = false → ¬ s.Nexted

/-- While `didAck` is not set, the final acknowledgements are those of `next`. -/
def Inv (s : JsMsgImpl) : Prop :=
  s.didAck = false → ∀ p ∈ s.published, p.isFinal = true → p.isNext = true

variable {s s' : JsMsgImpl} {maxPayload : Option Nat} {payload : Bytes} {reply : Option String}

/-- **What `respond` does**: it publishes, or leaves the message as it is. -/
theorem respond_cases (s : JsMsgImpl) (maxPayload : Option Nat) (payload : Bytes)
    (reply : Option String) :
    (s.Takes maxPayload payload ∧
        (s.respond maxPayload payload reply).1 =
        { s with published := s.published ++ [⟨payload, reply⟩] }) ∨
      ¬ s.Takes maxPayload payload ∧ (s.respond maxPayload payload reply).1 = s := by
  rw [Takes, respond, publish]
  by_cases hreply : s.reply = ""
  · exact .inr ⟨fun h => h.1 hreply, by rw [if_pos hreply]⟩
  · rw [if_neg hreply]
    by_cases hfits : fits maxPayload payload = true
    · exact .inl ⟨⟨hreply, hfits⟩, by rw [if_pos hfits]⟩
    · exact .inr ⟨fun h => hfits h.2, by rw [if_neg hfits]⟩

theorem isNext_next (opts : NextOptions) (reply : Option String) :
    (⟨nextPayload opts, reply⟩ : Acknowledgement).isNext = true := by
  rw [Acknowledgement.isNext, nextPayload]
  exact decide_eq_true (List.take_left' rfl)

/-- What `doAck` and `ackAck` do with a payload: nothing behind `didAck`, and otherwise they publish
it if they can. -/
def Acks (s : JsMsgImpl) (maxPayload : Option Nat) (payload : Bytes) (s' : JsMsgImpl) : Prop :=
  s'.reply = s.reply ∧
    (s.didAck = true ∧ s'.didAck = true ∧ s'.published = s.published ∨
      s.didAck = false ∧ s'.didAck = !isWIP payload ∧
        (s.Takes maxPayload payload ∧ (∃ reply, s'.published = s.published ++ [⟨payload, reply⟩]) ∨
          ¬ s.Takes maxPayload payload ∧ s'.published = s.published))

theorem acks_doAck (s : JsMsgImpl) (maxPayload : Option Nat) (payload : Bytes) :
    s.Acks maxPayload payload (s.doAck maxPayload payload).1 := by
  rw [doAck]
  cases hack : s.didAck with
  | true => exact ⟨rfl, .inl ⟨hack, hack, rfl⟩⟩
  | false =>
      rw [if_neg Bool.false_ne_true]
      rcases respond_cases { s with didAck := !isWIP payload } maxPayload payload none with
        ⟨htakes, heq⟩ | ⟨htakes, heq⟩
      · rw [heq]
        exact ⟨rfl, .inr ⟨hack, rfl, .inl ⟨htakes, none, rfl⟩⟩⟩
      · rw [heq]
        exact ⟨rfl, .inr ⟨hack, rfl, .inr ⟨htakes, rfl⟩⟩⟩

theorem acks_ackAck (s : JsMsgImpl) (maxPayload : Option Nat) (inbox : String) :
    s.Acks maxPayload ACK (s.ackAck maxPayload inbox).1 := by
  rw [ackAck]
  cases hack : s.didAck with
  | true => exact ⟨rfl, .inl ⟨hack, hack, rfl⟩⟩
  | false =>
      rw [if_neg Bool.false_ne_true]
      by_cases hreply : s.reply = ""
      · rw [if_pos hreply]
        exact ⟨rfl, .inr ⟨hack, rfl, .inr ⟨fun h => h.1 hreply, rfl⟩⟩⟩
      · rw [if_neg hreply, publish]
        by_cases hfits : fits maxPayload ACK = true
        · rw [if_pos hfits]
          exact ⟨rfl, .inr ⟨hack, rfl, .inl ⟨⟨hreply, hfits⟩, some inbox, rfl⟩⟩⟩
        · rw [if_neg hfits]
          exact ⟨rfl, .inr ⟨hack, rfl, .inr ⟨fun h => hfits h.2, rfl⟩⟩⟩

/-- **The calls other than `next`.** -/
theorem acks_step (s : JsMsgImpl) (maxPayload : Option Nat) {c : AckCall}
    (hpayload : ackPayload c = some payload) :
    s.Acks maxPayload payload (s.step (maxPayload, c)) := by
  cases c with
  | next subj opts => cases hpayload
  | settled replied => cases hpayload
  | ackAck inbox =>
      cases hpayload
      exact acks_ackAck s maxPayload inbox
  | ack =>
      cases hpayload
      exact acks_doAck s maxPayload ACK
  | nak millis =>
      cases hpayload
      exact acks_doAck s maxPayload (nakPayload millis)
  | working =>
      cases hpayload
      exact acks_doAck s maxPayload WPI
  | term reason =>
      cases hpayload
      exact acks_doAck s maxPayload (termPayload reason)

theorem published_settled (s : JsMsgImpl) (maxPayload : Option Nat) (replied : Bool) :
    (s.step (maxPayload, .settled replied)).published = s.published ∧
      (s.step (maxPayload, .settled replied)).didAck = s.didAck := by
  rw [step, call]
  split
  · exact ⟨rfl, rfl⟩
  · exact ⟨rfl, rfl⟩

/-- Without a final acknowledgement there is no `next` and no second one. -/
theorem not_finished_iff : ¬ s.Finished ↔ ∀ p ∈ s.published, p.isFinal = false := by
  simp only [Finished, not_exists, not_and, Bool.not_eq_true]

theorem oneFinal_of_not_finished (h : ¬ s.Finished) : OneFinal s.published := by
  rcases List.eq_nil_or_concat s.published with hnil | ⟨front, last, heq⟩
  · rw [hnil]
    exact .nil
  · rw [List.concat_eq_append] at heq
    rw [heq, oneFinal_concat]
    intro x hx
    exact not_finished_iff.1 h x (heq ▸ List.mem_append_left _ hx)

theorem not_nexted_of_not_finished (h : ¬ s.Finished) : ¬ s.Nexted :=
  fun ⟨p, hp, hnext⟩ => h ⟨p, hp, p.isFinal_of_isNext hnext⟩

theorem inv_step (h : s.Inv) (e : Option Nat × AckCall) : (s.step e).Inv := by
  obtain ⟨maxPayload, c⟩ := e
  have hacks : ∀ payload, ackPayload c = some payload → (s.step (maxPayload, c)).Inv := by
    intro payload hpayload hopen
    obtain ⟨-, ⟨-, hset, -⟩ | ⟨hack, hset, hpublished⟩⟩ := s.acks_step maxPayload hpayload
    · rw [hset] at hopen
      cases hopen
    · rcases hpublished with ⟨-, reply, hpublished⟩ | ⟨-, hpublished⟩
      · rw [hpublished]
        intro p hp hfinal
        rcases List.mem_append.1 hp with hp | hp
        · exact h hack p hp hfinal
        · -- what leaves `didAck` open is no final acknowledgement
          rw [hset] at hopen
          rw [List.mem_singleton.1 hp, Acknowledgement.isFinal, hopen] at hfinal
          cases hfinal
      · rw [hpublished]
        exact h hack
  cases c with
  | next subj opts =>
      show (s.respond maxPayload (nextPayload opts) _).1.Inv
      rcases s.respond_cases maxPayload (nextPayload opts)
        (if subj = "" then none else some subj) with
        ⟨-, heq⟩ | ⟨-, heq⟩
      · rw [heq]
        intro hopen p hp hfinal
        rcases List.mem_append.1 hp with hp | hp
        · exact h hopen p hp hfinal
        · rw [List.mem_singleton.1 hp]
          exact isNext_next opts _
      · rw [heq]
        exact h
  | settled replied =>
      obtain ⟨hpublished, hack⟩ := s.published_settled maxPayload replied
      rw [Inv, hpublished, hack]
      exact h
  | ack => exact hacks _ rfl
  | nak millis => exact hacks _ rfl
  | working => exact hacks _ rfl
  | term reason => exact hacks _ rfl
  | ackAck inbox => exact hacks _ rfl

/-- **One call** keeps the rule exactly where it publishes nothing behind a final
acknowledgement. -/
theorem oneFinal_step (h : s.Inv) (e : Option Nat × AckCall) :
    OneFinal (s.step e).published ↔ OneFinal s.published ∧ s.Spares e := by
  obtain ⟨maxPayload, c⟩ := e
  have hacks : ∀ payload, ackPayload c = some payload →
      (OneFinal (s.step (maxPayload, c)).published ↔ OneFinal s.published ∧
        (s.Takes maxPayload payload → s.didAck = false → ¬ s.Nexted)) := by
    intro payload hpayload
    obtain ⟨-, ⟨hack, -, hpublished⟩ | ⟨hack, -, hpublished⟩⟩ :=
      s.acks_step maxPayload hpayload
    · rw [hpublished]
      refine (and_iff_left fun _ hopen => ?_).symm
      -- behind an acknowledgement nothing is published
      rw [hack] at hopen
      cases hopen
    · rcases hpublished with ⟨htakes, reply, hpublished⟩ | ⟨htakes, hpublished⟩
      · -- the first acknowledgement is final, unless `next` was called before
        rw [hpublished, oneFinal_concat, ← not_finished_iff]
        constructor
        · exact fun hnot =>
            ⟨oneFinal_of_not_finished hnot, fun _ _ => not_nexted_of_not_finished hnot⟩
        · rintro ⟨-, hnot⟩ ⟨p, hp, hfinal⟩
          exact hnot htakes hack ⟨p, hp, h hack p hp hfinal⟩
      · rw [hpublished]
        exact (and_iff_left fun hyes => absurd hyes htakes).symm
  have hspares : ∀ payload, ackPayload c = some payload →
      ((∀ payload', ackPayload c = some payload' → s.Takes maxPayload payload' → s.didAck = false →
        ¬ s.Nexted) ↔ (s.Takes maxPayload payload → s.didAck = false → ¬ s.Nexted)) := by
    intro payload hpayload
    constructor
    · exact fun hall => hall payload hpayload
    · intro hone payload' hpayload'
      rw [hpayload, Option.some.injEq] at hpayload'
      exact hpayload' ▸ hone
  cases c with
  | next subj opts =>
      -- `next` does not look at `didAck`
      show OneFinal (s.respond maxPayload (nextPayload opts) _).1.published ↔
        _ ∧ (s.Takes maxPayload (nextPayload opts) → ¬ s.Finished)
      rcases s.respond_cases maxPayload (nextPayload opts)
        (if subj = "" then none else some subj) with
        ⟨htakes, heq⟩ | ⟨htakes, heq⟩
      · rw [heq, oneFinal_concat, ← not_finished_iff]
        constructor
        · exact fun hnot => ⟨oneFinal_of_not_finished hnot, fun _ => hnot⟩
        · exact fun hboth => hboth.2 htakes
      · rw [heq]
        exact (and_iff_left fun hyes => absurd hyes htakes).symm
  | settled replied =>
      -- the answer to an `ackAck` publishes nothing
      rw [(s.published_settled maxPayload replied).1]
      refine (and_iff_left ?_).symm
      intro payload hpayload
      cases hpayload
  | ack => exact (hacks _ rfl).trans (and_congr_right fun _ => (hspares _ rfl).symm)
  | nak millis => exact (hacks _ rfl).trans (and_congr_right fun _ => (hspares _ rfl).symm)
  | working => exact (hacks _ rfl).trans (and_congr_right fun _ => (hspares _ rfl).symm)
  | term reason => exact (hacks _ rfl).trans (and_congr_right fun _ => (hspares _ rfl).symm)
  | ackAck inbox => exact (hacks _ rfl).trans (and_congr_right fun _ => (hspares _ rfl).symm)

/-- **At most one final acknowledgement**, and nothing behind it, exactly where no `next` is
published behind a final acknowledgement and no other call publishes behind a `next`. -/
theorem oneFinal_iff_meets (reply : String) (es : List (Option Nat × AckCall)) :
    OneFinal (es.foldl step (new reply)).published ↔
      Meets (fun s e => some (s.step e)) Spares (new reply) es := by
  have hinit : (new reply).Inv := by
    intro _ p hp
    cases hp
  refine (iff_meets (I := Inv) (C := fun s => OneFinal s.published) ?_ ?_
    (run_total step (new reply) es) hinit).trans (and_iff_right .nil)
  · rintro s e s' hs ⟨⟩
    exact inv_step hs e
  · rintro s e s' hs ⟨⟩
    exact oneFinal_step hs e

/-- `ack` and then `next`. -/
theorem not_oneFinal : ¬ ∀ (reply : String) (es : List (Option Nat × AckCall)),
    OneFinal (es.foldl step (new reply)).published := by
  intro hall
  have hacked : (new "r").step (none, .ack) = ⟨"r", true, [⟨ACK, none⟩], false⟩ := by decide
  have hone := hall "r" [(none, .ack), (none, .next "" ⟨1, false, 0⟩)]
  rw [List.foldl_cons, hacked, List.foldl_cons, List.foldl_nil] at hone
  have hinv : (⟨"r", true, [⟨ACK, none⟩], false⟩ : JsMsgImpl).Inv := fun hopen => by cases hopen
  apply ((oneFinal_step hinv _).1 hone).2
  · exact ⟨by decide, rfl⟩
  · exact ⟨⟨ACK, none⟩, List.mem_singleton.2 rfl, by decide⟩

end JsMsgImpl

end NatsClient.JetStream
