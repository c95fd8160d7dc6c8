import NatsClient.Connection.Output
import NatsClient.Wire.Relay

/-!
# Publishing on a connection

Model of `publish` (`protocol.ts`) with all that it may be given and all that it changes: a payload
of any type, headers, the INFO of the server, the counters and the outbound buffer, which may be
flushed on the way. It is written in a monad that keeps the state where an exception is thrown, so
the order of the checks and of the changes is that of the source.

The calls that publish work on more than the buffer, so `publish` is given the state it works on by
its three operations (`Port`).

* `publish_refused`, `publish_accepted`: it throws and changes nothing, or it sends the command of
  `Wire.publish`;
* `stream_sendCommand`: a command extends what goes out by its bytes, whether it is flushed or not;
* `publish_atomic`: nothing, or one whole frame.
-/

set_option autoImplicit false

namespace NatsClient.Connection

open NatsClient.Foundation NatsClient.Wire

/-- What is given as the payload; `missing` is `undefined`, for which there is a default. -/
inductive Data where
  | missing
  | payload (p : Payload)
  | other
deriving DecidableEq, Repr

/-- What is given as the headers: those of `headers()`, or something without an `encode`. -/
inductive Headers where
  | hdrs (h : MsgHdrs)
  | other

/-- The options of a publish; a reply that is not given is the empty one. -/
structure PublishArgs where
  reply : String
  headers : Option Headers

/-- What `publish` throws; `badHeaders` is a `TypeError`. -/
inductive PublishFailure where
  | badPayload
  | badHeaders
  | refused (e : PublishError)
deriving DecidableEq, Repr

/-- The error codes. -/
def PublishFailure.code : PublishFailure → Option String
  | .badPayload => some "BAD_PAYLOAD"
  | .badHeaders => none
  | .refused e => some e.code

/-- The state that a publish works on: the INFO in it, the counters and `sendCommand`. -/
structure Port (σ : Type) where
  info : σ → Option ServerInfo
  count : Nat → σ → σ
  sendCommand : String → List Bytes → σ → σ

section

variable {σ : Type} (port : Port σ)

/-- The bytes of the payload. -/
def payloadData : Data → EStateM PublishFailure σ Bytes
  | .missing => pure []
  | .payload p => pure p.data
  | .other => throw .badPayload

/-- The bytes of the headers, which the server has to support. -/
def headerData : Option Headers → EStateM PublishFailure σ Bytes
  | none => pure []
  | some headers => do
      if (port.info (← get)).any fun i => !i.headers then throw (.refused .serverOptionNotAvailable)
      match headers with
      | .hdrs h => pure h.encode
      | .other => throw .badHeaders

/-- `publish(subject, payload, options)`. -/
def publish (subject : String) (payload : Data) (options : PublishArgs) :
    EStateM PublishFailure σ Unit := do
  let data ← payloadData payload
  let headers ← headerData port options.headers
  let hlen := headers.length
  let len := data.length + hlen
  if (port.info (← get)).any fun i => i.maxPayload < len then throw (.refused .maxPayloadExceeded)
  modify (port.count len)
  if options.headers.isSome then
    modify (port.sendCommand (hpubLine subject options.reply hlen len) [headers, data, CRLF])
  else modify (port.sendCommand (pubLine subject options.reply len) [data, CRLF])

end

/-- The payload, where it is one. -/
def Data.toPayload : Data → Option Payload
  | .missing => some (.bytes [])
  | .payload p => some p
  | .other => none

/-- The options, where the headers can be encoded. -/
def PublishArgs.toOptions (options : PublishArgs) : Option PublishOptions :=
  match options.headers with
  | none => some ⟨options.reply, none⟩
  | some (.hdrs h) => some ⟨options.reply, some h⟩
  | some .other => none

/-- The headers and the payload together. -/
def totalLength (p : Payload) (options : PublishOptions) : Nat :=
  p.data.length + ((options.headers.map MsgHdrs.encode).getD []).length

/-- What a publish throws on these arguments, if it throws. -/
def refusal (info : Option ServerInfo) (payload : Data) (options : PublishArgs) :
    Option PublishFailure :=
  match payload.toPayload with
  | none => some .badPayload
  | some p =>
      -- asked before the headers are encoded, which throws where they are no headers
      if options.headers.isSome && info.any fun i => !i.headers then
        some (.refused .serverOptionNotAvailable)
      else
        match options.toOptions with
        | none => some .badHeaders
        | some opts =>
            if info.any fun i => i.maxPayload < totalLength p opts then
              some (.refused .maxPayloadExceeded)
            else none

section

variable {σ : Type} {port : Port σ} {subject : String} {payload : Data} {options : PublishArgs}

theorem run_payloadData (s : σ) : (payloadData payload).run s =
    match payload.toPayload with
    | some p => .ok p.data s
    | none => .error .badPayload s := by
  cases payload <;> rfl

theorem run_headerData (s : σ) : (headerData port options.headers).run s =
    if options.headers.isSome && (port.info s).any fun i => !i.headers then
      .error (.refused .serverOptionNotAvailable) s
    else
      match options.toOptions with
      | some opts => .ok ((opts.headers.map MsgHdrs.encode).getD []) s
      | none => .error .badHeaders s := by
  obtain ⟨reply, headers⟩ := options
  cases headers with
  | none => rfl
  | some headers =>
      simp only [headerData, EStateM.run_bind, EStateM.run_get, Option.isSome_some, Bool.true_and]
      split
      · rfl
      · cases headers <;> rfl

/-- **A publish that is refused** throws, and leaves the state as it was. -/
theorem publish_refused {s : σ} {e : PublishFailure}
    (h : refusal (port.info s) payload options = some e) :
    (publish port subject payload options).run s = .error e s := by
  unfold refusal at h
  simp only [publish, EStateM.run_bind, run_payloadData, run_headerData]
  cases hp : payload.toPayload with
  | none =>
      rw [hp] at h
      cases h
      rfl
  | some p =>
      rw [hp] at h
      simp only at h ⊢
      split at h
      · cases h
        rw [if_pos ‹_›]
      · rw [if_neg ‹_›]
        cases hopts : options.toOptions with
        | none =>
            rw [hopts] at h
            cases h
            rfl
        | some opts =>
            rw [hopts] at h
            simp only at h ⊢
            split at h
            · rename_i hsize
              cases h
              rw [totalLength] at hsize
              rw [EStateM.run_get]
              simp only
              rw [if_pos hsize]
              rfl
            · cases h

/-- **A publish that is not refused** counts the message and sends its command. -/
theorem publish_accepted {s : σ} (h : refusal (port.info s) payload options = none) :
    ∃ p opts proto payloads, payload.toPayload = some p ∧ options.toOptions = some opts ∧
      Wire.publish (port.info s) subject p opts = .ok (proto, payloads) ∧
      (publish port subject payload options).run s =
        .ok () (port.sendCommand proto payloads (port.count (totalLength p opts) s)) := by
  unfold refusal at h
  cases hp : payload.toPayload with
  | none =>
      rw [hp] at h
      cases h
  | some p =>
      rw [hp] at h
      simp only at h
      split at h
      · cases h
      · rename_i hsupport
        cases hopts : options.toOptions with
        | none =>
            rw [hopts] at h
            cases h
        | some opts =>
            rw [hopts] at h
            simp only at h
            split at h
            · cases h
            · rename_i hsize
              -- the sizes that are counted are those of the message that is written
              have hlen : p.data.length + ((opts.headers.map MsgHdrs.encode).getD []).length =
                  totalLength p opts := rfl
              have hrun : (publish port subject payload options).run s =
                  .ok () (if options.headers.isSome then
                      port.sendCommand (hpubLine subject options.reply
                        ((opts.headers.map MsgHdrs.encode).getD []).length (totalLength p opts))
                        [(opts.headers.map MsgHdrs.encode).getD [], p.data, CRLF]
                        (port.count (totalLength p opts) s)
                    else port.sendCommand (pubLine subject options.reply (totalLength p opts))
                      [p.data, CRLF] (port.count (totalLength p opts) s)) := by
                simp only [publish, EStateM.run_bind, run_payloadData, run_headerData, hp, hopts,
                  EStateM.run_get, if_neg hsupport, hlen]
                rw [if_neg hsize]
                split <;> rfl
              refine ⟨p, opts, ?_⟩
              -- headers decide between PUB and HPUB
              obtain ⟨reply, headers⟩ := options
              cases headers with
              | none =>
                  obtain rfl : (⟨reply, none⟩ : PublishOptions) = opts := Option.some.inj hopts
                  refine ⟨_, _, rfl, rfl, ?_, hrun⟩
                  simp only [Wire.publish]
                  exact if_neg hsize
              | some headers =>
                  cases headers with
                  | other => cases hopts
                  | hdrs h =>
                      obtain rfl : (⟨reply, some h⟩ : PublishOptions) = opts :=
                        Option.some.inj hopts
                      rw [Option.isSome_some, Bool.true_and] at hsupport
                      refine ⟨_, _, rfl, rfl, ?_, hrun⟩
                      simp only [Wire.publish]
                      rw [if_neg hsupport]
                      exact if_neg hsize

end

/-- An exception becomes one of another kind. -/
theorem run_adaptExcept {ε ε' σ β : Type} (f : ε → ε') (x : EStateM ε σ β) (a : σ) :
    (EStateM.adaptExcept f x).run a =
      match x.run a with
      | EStateM.Result.error err a => EStateM.Result.error (f err) a
      | EStateM.Result.ok b a => EStateM.Result.ok b a := rfl

/-! ## The output of a connection -/

/-- The fields of `ProtocolHandler` that a publish reads and changes. -/
structure Publishing where
  output : Output
  info : Option ServerInfo
  outBytes : Nat
  outMsgs : Nat

namespace Publishing

/-- `outBytes` and `outMsgs` are counted up. -/
def count (len : Nat) (s : Publishing) : Publishing :=
  { s with outBytes := s.outBytes + len, outMsgs := s.outMsgs + 1 }

/-- `sendCommand(proto, ...payloads)`, for the link and for its bytes. -/
def sendCommand (proto : String) (payloads : List Bytes) (s : Publishing) : Publishing :=
  let link := s.output.link.sendCommand (.pub proto payloads.flatten)
  { s with output := { s.output with link := link }.sendCommand proto payloads }

/-- The protocol handler publishes. -/
def port : Port Publishing := ⟨Publishing.info, count, sendCommand⟩

/-- All bytes that go out: those given to the transport, and those in the outbound buffer. -/
def stream (s : Publishing) : Bytes :=
  s.output.written.flatMap Write.bytes ++ s.output.outbound.contents

/-- Nothing went out, and nothing was counted. -/
structure Untouched (s s' : Publishing) : Prop where
  stream : s'.stream = s.stream
  outBytes : s'.outBytes = s.outBytes
  outMsgs : s'.outMsgs = s.outMsgs

/-- One frame went out, which the server reads as a publish of just this: the lengths in it are
those of the bytes that follow. -/
structure Extended (subject reply : String) (p : Payload) (headers : Option MsgHdrs)
    (s s' : Publishing) : Prop where
  stream : ∃ frame, s'.stream = s.stream ++ frame ∧
    readPub frame = some (pubFrame subject p ⟨reply, headers⟩)
  outBytes : s'.outBytes = s.outBytes + totalLength p ⟨reply, headers⟩
  outMsgs : s'.outMsgs = s.outMsgs + 1

/-- A flush moves bytes from the buffer to the transport. -/
theorem stream_flushPending (o : Output) :
    o.flushPending.written.flatMap Write.bytes ++ o.flushPending.outbound.contents =
      o.written.flatMap Write.bytes ++ o.outbound.contents := by
  unfold Output.flushPending
  split
  · split
    · simp only [List.flatMap_append, List.flatMap_singleton]
      rw [List.append_assoc, DataBuffer.drain_contents]
    · rfl
  · rfl

/-- **A command extends what goes out** by its bytes. -/
theorem stream_sendCommand (proto : String) (payloads : List Bytes) (s : Publishing) :
    (sendCommand proto payloads s).stream = s.stream ++ frameBytes proto payloads := by
  have hfill : s.output.written.flatMap Write.bytes ++
      (s.output.outbound.fill (encode proto) payloads).contents =
        s.stream ++ frameBytes proto payloads := by
    rw [DataBuffer.contents_fill, stream, frameBytes, List.append_assoc]
  unfold stream sendCommand Output.sendCommand
  simp only
  split
  · exact hfill
  · split
    · rw [stream_flushPending]
      exact hfill
    · exact hfill

end Publishing

/-- **A publish is atomic.** It throws, and then nothing went out and nothing was counted; or
exactly one whole frame went out, and one message and its length were counted. -/
theorem Publishing.publish_atomic (s : Publishing) (subject : String) (payload : Data)
    (options : PublishArgs) (hsubject : IsWord subject)
    (hreply : options.reply = "" ∨ IsWord options.reply) :
    match (publish Publishing.port subject payload options).run s with
    | .error _ s' => Untouched s s'
    | .ok _ s' => ∃ p headers, payload.toPayload = some p ∧
        options.toOptions = some ⟨options.reply, headers⟩ ∧
        Extended subject options.reply p headers s s' := by
  cases hrefusal : refusal (port.info s) payload options with
  | some e =>
      rw [publish_refused hrefusal]
      exact ⟨rfl, rfl, rfl⟩
  | none =>
      obtain ⟨p, opts, proto, payloads, hp, hopts, hpublish, hrun⟩ :=
        @publish_accepted _ _ subject _ _ _ hrefusal
      rw [hrun]
      have hreply' : opts.reply = options.reply := by
        unfold PublishArgs.toOptions at hopts
        split at hopts <;> cases hopts <;> rfl
      obtain ⟨reply, headers⟩ := opts
      obtain rfl : reply = options.reply := hreply'
      refine ⟨p, headers, hp, hopts, ⟨frameBytes proto payloads, ?_, ?_⟩, rfl, rfl⟩
      · exact stream_sendCommand proto payloads _
      · exact readPub_publish hsubject hreply hpublish

/-- Headers, a reply and no payload, on a connection that is not up. -/
theorem Publishing.publish_atomic_headers :
    let s : Publishing := ⟨.new 1024 2, some ⟨true, 1024⟩, 5, 1⟩
    let options : PublishArgs := ⟨"r", some (.hdrs (@MsgHdrs.build .common [.set "K" "v" .exact]))⟩
    ∃ s' p headers, (publish Publishing.port "a" .missing options).run s = .ok () s' ∧
      Extended "a" "r" p headers s s' := by
  intro s options
  have hatomic := publish_atomic s "a" .missing options (by decide) (by decide)
  have hok : (match (publish Publishing.port "a" .missing options).run s with
      | .error _ _ => false
      | .ok _ _ => true) = true := by
    decide +kernel
  cases hrun : (publish Publishing.port "a" .missing options).run s with
  | error e s' =>
      rw [hrun] at hok
      cases hok
  | ok u s' =>
      rw [hrun] at hatomic
      obtain ⟨p, headers, -, -, hextended⟩ := hatomic
      exact ⟨s', p, headers, rfl, hextended⟩

end NatsClient.Connection
