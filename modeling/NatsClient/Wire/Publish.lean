import NatsClient.Wire.Headers

/-!
# Publishing

Model of `publish` (`protocol.ts`): the checks against the INFO of the server, the protocol line of
`PUB` and `HPUB`, and the byte arrays given to `sendCommand` behind it.
-/

set_option autoImplicit false

namespace NatsClient.Wire

/-- The fields of the INFO that `publish` reads. -/
structure ServerInfo where
  headers : Bool
  maxPayload : Nat
deriving DecidableEq, Repr

/-- A payload. -/
inductive Payload where
  | bytes (data : Bytes)
  | text (data : String)
deriving DecidableEq, Repr

/-- The bytes of a payload. -/
def Payload.data : Payload → Bytes
  | .bytes data => data
  | .text data => encode data

/-- `PublishOptions`; a reply that is not given is the empty one. -/
structure PublishOptions where
  reply : String
  headers : Option MsgHdrs

/-- What `publish` throws. -/
inductive PublishError where
  | serverOptionNotAvailable
  | maxPayloadExceeded
deriving DecidableEq, Repr

/-- The error codes. -/
def PublishError.code : PublishError → String
  | .serverOptionNotAvailable => "SERVER_OPT_NA"
  | .maxPayloadExceeded => "MAX_PAYLOAD_EXCEEDED"

/-- The line end given to `sendCommand`. -/
def CRLF : Bytes := encode "\r\n"

/-- The protocol line of a publish without headers. -/
def pubLine (subject reply : String) (len : Nat) : String :=
  if reply ≠ "" then s!"PUB {subject} {reply} {len}\r\n" else s!"PUB {subject} {len}\r\n"

/-- The protocol line of a publish with headers. -/
def hpubLine (subject reply : String) (hlen len : Nat) : String :=
  if reply ≠ "" then s!"HPUB {subject} {reply} {hlen} {len}\r\n"
  else s!"HPUB {subject} {hlen} {len}\r\n"

/-- `publish(subject, payload, options)`, as the arguments of its `sendCommand`. There is no `info`
before the first INFO. -/
def publish (info : Option ServerInfo) (subject : String) (payload : Payload)
    (options : PublishOptions) : Except PublishError (String × List Bytes) :=
  let data := payload.data
  match options.headers with
  | some hdrs =>
      if info.any fun i => !i.headers then .error .serverOptionNotAvailable
      else
        -- the headers count with the payload
        let headers := hdrs.encode
        let len := data.length + headers.length
        if info.any fun i => i.maxPayload < len then .error .maxPayloadExceeded
        else .ok (hpubLine subject options.reply headers.length len, [headers, data, CRLF])
  | none =>
      if info.any fun i => i.maxPayload < data.length then .error .maxPayloadExceeded
      else .ok (pubLine subject options.reply data.length, [data, CRLF])

/-- A publish that does not throw sends a frame with headers or one without. -/
theorem publish_cases {info : Option ServerInfo} {subject : String} {payload : Payload}
    {options : PublishOptions} {proto : String} {payloads : List Bytes}
    (h : publish info subject payload options = .ok (proto, payloads)) :
    (∃ hdrs, options.headers = some hdrs ∧
      proto = hpubLine subject options.reply hdrs.encode.length
        (payload.data.length + hdrs.encode.length) ∧
      payloads = [hdrs.encode, payload.data, CRLF]) ∨
    (options.headers = none ∧ proto = pubLine subject options.reply payload.data.length ∧
      payloads = [payload.data, CRLF]) := by
  cases hheaders : options.headers with
  | some hdrs =>
      left
      refine ⟨hdrs, rfl, ?_⟩
      simp only [publish, hheaders] at h
      split at h
      · cases h
      · split at h
        · cases h
        · cases h
          exact ⟨rfl, rfl⟩
  | none =>
      right
      refine ⟨rfl, ?_⟩
      simp only [publish, hheaders] at h
      split at h
      · cases h
      · cases h
        exact ⟨rfl, rfl⟩

/-- A publish has a protocol line. -/
theorem publish_line_pos {info : Option ServerInfo} {subject : String} {payload : Payload}
    {options : PublishOptions} {proto : String} {payloads : List Bytes}
    (h : publish info subject payload options = .ok (proto, payloads)) :
    0 < proto.utf8ByteSize := by
  have hpub : "PUB ".utf8ByteSize = 4 := by decide
  have hhpub : "HPUB ".utf8ByteSize = 5 := by decide
  rcases publish_cases h with ⟨hdrs, -, rfl, -⟩ | ⟨-, rfl, -⟩
  · rw [hpubLine]
    split <;> simp only [toString, String.utf8ByteSize_append, hhpub] <;> omega
  · rw [pubLine]
    split <;> simp only [toString, String.utf8ByteSize_append, hpub] <;> omega

end NatsClient.Wire
