import NatsClient.Connection.Publishing

/-!
# Endpoints of a service

Model of the callback that `setupHandler` (`service.ts`) puts around the handler of an endpoint: an
error that the handler throws is counted and answered with a message that has the error in its
headers, and the request is counted in any case. The handler is any computation on the state of the
service and of its connection, which ends or throws.

`error_contained_iff`: what the handler throws stays in the callback, and is answered once, exactly
if its text has no line break and the answer is not refused by `publish`. The statistics are right
in any case.
-/

set_option autoImplicit false

namespace NatsClient.Service

open NatsClient.Foundation NatsClient.Connection NatsClient.Wire

/-- A character of the text of a number. -/
def isNumberChar (c : Char) : Bool :=
  c.isDigit || c ∈ ['+', '-', '.', 'e', 'N', 'a', 'I', 'n', 'f', 'i', 't', 'y']

/-- The text of a number: digits, a sign, a point and an exponent, or `NaN` or `Infinity`. -/
structure NumberText where
  text : String
  chars : ∀ c ∈ text.toList, isNumberChar c = true

/-- What a handler throws: an error, or a `ServiceError` with the text of its code. -/
inductive HandlerError where
  | error (message : String)
  | serviceError (code : NumberText) (message : String)

/-- `err.message`. -/
def HandlerError.message : HandlerError → String
  | .error message | .serviceError _ message => message

/-- What the callback throws. -/
inductive Escaped where
  | header (e : HeaderError)
  | publish (e : PublishFailure)
deriving DecidableEq, Repr

/-- What of a request is used; a reply that is not there is the empty one. -/
structure Msg where
  subject : String
  reply : String
  data : Bytes

/-- The fields of `NamedEndpointStatsImpl` that are counted. Times are in nanoseconds. -/
structure NamedEndpointStatsImpl where
  numRequests : Nat
  processingTime : Int
  averageProcessingTime : Int
  numErrors : Nat
  lastError : Option String
deriving DecidableEq, Repr

namespace NamedEndpointStatsImpl

/-- `countLatency(start)`, `now` being the time. The average is rounded up from the half. -/
def countLatency (start now : Int) (s : NamedEndpointStatsImpl) : NamedEndpointStatsImpl :=
  let numRequests := s.numRequests + 1
  let processingTime := s.processingTime + (now - start) * 1000000
  { s with
    numRequests := numRequests
    processingTime := processingTime
    averageProcessingTime := (2 * processingTime + numRequests) / (2 * numRequests) }

/-- `countError(err)`. -/
def countError (err : HandlerError) (s : NamedEndpointStatsImpl) : NamedEndpointStatsImpl :=
  { s with numErrors := s.numErrors + 1, lastError := some err.message }

end NamedEndpointStatsImpl

/-- The fields of `ServiceImpl` that the callback of an endpoint uses, with what the connection
publishes on and the statistics of the endpoint. Subscriptions are numbered, `drained` are those
that `drain()` was called on, and `reason` is what the promise `stopped` will have. -/
structure ServiceImpl (E : Type) where
  nc : Publishing
  stats : NamedEndpointStatsImpl
  stopped : Bool
  reason : Option E
  handlers : List Nat
  internals : List Nat
  drained : List Nat

/-- A computation on a service. -/
abbrev Serving (E ε α : Type) := EStateM ε (ServiceImpl E) α

variable {E : Type}

namespace ServiceImpl

/-- `close(err)`. -/
def close (err : Option E) (s : ServiceImpl E) : ServiceImpl E :=
  if s.stopped then s
  else
    { s with
      stopped := true
      reason := err
      drained :=
        if s.nc.output.link.closed then s.drained else s.drained ++ s.handlers ++ s.internals }

/-- The statistics of the endpoint change. -/
def withStats (f : NamedEndpointStatsImpl → NamedEndpointStatsImpl) (s : ServiceImpl E) :
    ServiceImpl E :=
  { s with stats := f s.stats }

/-- The connection of the service publishes. -/
def port : Port (ServiceImpl E) where
  info s := s.nc.info
  count len s := { s with nc := s.nc.count len }
  sendCommand proto payloads s := { s with nc := s.nc.sendCommand proto payloads }

/-- `respond(data, opts)` of a message. -/
def respond (msg : Msg) (data : Data) (opts : PublishArgs) : Serving E PublishFailure Bool := do
  if msg.reply ≠ "" then
    publish port msg.reply data opts
    return true
  else return false

/-- `ServiceErrorHeader`. -/
def serviceErrorHeader : String := "Nats-Service-Error"

/-- `ServiceErrorCodeHeader`. -/
def serviceErrorCodeHeader : String := "Nats-Service-Error-Code"

/-- The code that is sent with an error. -/
def errorCode : HandlerError → String
  | .error _ => "500"
  | .serviceError code _ => code.text

/-- `errorToHeader(err)`. -/
def errorToHeader [Engine] (err : HandlerError) : Except HeaderError MsgHdrs :=
  match MsgHdrs.new.set serviceErrorHeader err.message .exact with
  | (_, some e) => .error e
  | (h, none) =>
      match h.set serviceErrorCodeHeader (errorCode err) .exact with
      | (_, some e) => .error e
      | (h, none) => .ok h

/-- What the callback does with an error of the handler. -/
def onError [Engine] (msg : Msg) (err : HandlerError) : Serving E Escaped Unit := do
  modify (withStats (.countError err))
  match errorToHeader err with
  | .error e => throw (.header e)
  | .ok h =>
      let _ ← EStateM.adaptExcept Escaped.publish
        (respond msg (.payload (.bytes [])) ⟨"", some (.hdrs h)⟩)

/-- `try { x } catch (err) { f(err) }`. -/
def catching {ε ε' : Type} (x : Serving E ε Unit) (f : ε → Serving E ε' Unit) : Serving E ε' Unit :=
  fun s =>
  match x.run s with
  | .ok _ s' => .ok () s'
  | .error err s' => (f err).run s'

/-- `try { x } finally { f }`, where `f` does not throw. -/
def ending {ε : Type} (x : Serving E ε Unit) (f : ServiceImpl E → ServiceImpl E) :
    Serving E ε Unit := fun s =>
  match x.run s with
  | .ok _ s' => .ok () (f s')
  | .error err s' => .error err (f s')

/-- The callback of an endpoint with a handler, from the time `start` to the time `now`. -/
def callback [Engine] (handler : Msg → Serving E HandlerError Unit) (start now : Int)
    (err : Option E) (msg : Msg) : Serving E Escaped Unit :=
  match err with
  | some err => modify (close (some err))
  | none => ending (catching (handler msg) (onError msg)) (withStats (.countLatency start now))

/-! ## The answer to an error -/

/-- The text of the headers of an answer. -/
def errorBlock (err : HandlerError) : String :=
  "NATS/1.0\r\nNats-Service-Error: " ++ String.ofList (trim err.message.toList) ++
    "\r\nNats-Service-Error-Code: " ++ errorCode err ++ "\r\n\r\n"

/-- The text of an error fits in a line. -/
def OneLine (err : HandlerError) : Prop := '\r' ∉ err.message.toList ∧ '\n' ∉ err.message.toList

instance (err : HandlerError) : Decidable (OneLine err) := inferInstanceAs (Decidable (_ ∧ _))

/-- The server takes headers of this length. -/
def Fits (info : Option ServerInfo) (err : HandlerError) : Prop :=
  ∀ i ∈ info, i.headers = true ∧ (errorBlock err).utf8ByteSize ≤ i.maxPayload

instance (info : Option ServerInfo) (err : HandlerError) : Decidable (Fits info err) :=
  inferInstanceAs (Decidable (∀ i ∈ info, _))

/-- The headers that stand for an error: its text and its code, once each. -/
structure Describes (err : HandlerError) (h : MsgHdrs) : Prop where
  entries : h.headers.entries =
    [(serviceErrorHeader, [String.ofList (trim err.message.toList)]),
      (serviceErrorCodeHeader, [errorCode err])]
  text : h.text = errorBlock err

/-- One frame went out, a message without a payload to the reply subject that describes the
error. -/
structure Answered (reply : String) (err : HandlerError) (s s' : Publishing) : Prop where
  frame : ∃ h proto payloads, Describes err h ∧
    Wire.publish s.info reply (.bytes []) ⟨"", some h⟩ = .ok (proto, payloads) ∧
    s'.stream = s.stream ++ frameBytes proto payloads
  outMsgs : s'.outMsgs = s.outMsgs + 1

/-- A request and an error were counted. -/
structure Counted (err : HandlerError) (s s' : NamedEndpointStatsImpl) : Prop where
  numRequests : s'.numRequests = s.numRequests + 1
  numErrors : s'.numErrors = s.numErrors + 1
  lastError : s'.lastError = some err.message

/-- **An error is contained**: the callback does not throw, the request is answered once if it has a
reply subject, and it is counted. -/
def Contained (msg : Msg) (err : HandlerError) (s : ServiceImpl E) :
    EStateM.Result Escaped (ServiceImpl E) Unit → Prop
  | .ok _ s' =>
      (if msg.reply = "" then s'.nc = s.nc else Answered msg.reply err s.nc s'.nc) ∧
        Counted err s.stats s'.stats
  | .error _ _ => False

/-! ## The headers of an answer -/

/-- The text of a number has no space in it. -/
theorem isSpace_isNumberChar {c : Char} (hc : isNumberChar c = true) : isSpace c = false := by
  have hlt : c.toNat < 127 := by
    rcases Bool.or_eq_true_iff.1 hc with hdigit | hmem
    · have hle : c.val ≤ 57 := (Char.isDigit_iff_toNat.1 hdigit).2
      exact Nat.lt_of_le_of_lt hle (by decide)
    · have hlist : ∀ d ∈ ['+', '-', '.', 'e', 'N', 'a', 'I', 'n', 'f', 'i', 't', 'y'],
          d.toNat < 127 := by
        simp
      exact hlist c (of_decide_eq_true hmem)
  exact of_ascii (P := fun c => isNumberChar c = true → isSpace c = false) (by decide) hlt hc

/-- The code of an error is a value as it is. -/
theorem validHeaderValue_errorCode (err : HandlerError) :
    validHeaderValue (errorCode err) = .ok (errorCode err) := by
  apply MsgHdrs.validHeaderValue_of_validValue
  have hword : ∀ c ∈ (errorCode err).toList, isSpace c = false := by
    cases err with
    | error message =>
        have hnumber : "500".toList.all isNumberChar = true := rfl
        exact fun c hc => isSpace_isNumberChar (List.all_eq_true.1 hnumber c hc)
    | serviceError code message => exact fun c hc => isSpace_isNumberChar (code.chars c hc)
  refine ⟨fun hcr => ?_, fun hlf => ?_, trim_of_not_isSpace ?_ ?_⟩
  · exact absurd (hword _ hcr) (by decide)
  · exact absurd (hword _ hlf) (by decide)
  · exact fun c hc => hword c (List.mem_of_mem_head? hc)
  · exact fun c hc => hword c (List.mem_of_mem_getLast? hc)

/-- A key that is not there yet goes to the end, with its one value. -/
theorem set_new [Engine] {h : MsgHdrs} {k v : String} (hk : MsgHdrs.FitKey k)
    (hnew : k ∉ h.headers.keys) :
    match validHeaderValue v with
    | .error e => ∃ h', h.set k v .exact = (h', some e)
    | .ok value => ∃ h', h.set k v .exact = (h', none) ∧ h'.code = h.code ∧
        h'.description = h.description ∧
        h'.headers.entries = h.headers.entries ++ [(k, [value])] := by
  obtain ⟨ck, hck⟩ := (MsgHdrs.canonicalMIMEHeaderKey_spec k).2 hk
  have hkeys : h.headers.keys.filter (· = k) = [] := by
    apply List.filter_eq_nil_iff.2
    rintro k' hk' heq
    exact hnew (of_decide_eq_true heq ▸ hk')
  have hget : h.headers.get k = none := by
    cases hget : h.headers.get k with
    | none => rfl
    | some vs => exact absurd (Foundation.OrderedMap.mem_keys.2 ⟨vs, hget⟩) hnew
  have hset : h.set k v .exact = h.append k v .exact := by
    simp only [MsgHdrs.set, MsgHdrs.delete, MsgHdrs.findKeys, hkeys]
    rfl
  rw [hset]
  cases hv : validHeaderValue v with
  | error e =>
      refine ⟨h, ?_⟩
      simp only [MsgHdrs.append, MsgHdrs.findKeys, hck, hv]
  | ok value =>
      refine ⟨{ h with headers := h.headers.set k [value] }, ?_, rfl, rfl, ?_⟩
      · simp only [MsgHdrs.append, MsgHdrs.findKeys, hck, hv, hkeys, hget, reduceCtorEq, if_false,
          List.head?_nil, Option.getD_none, List.nil_append]
      · show (h.headers.set k [value]).entries = _
        rw [Foundation.OrderedMap.set, dif_neg hnew]

/-- The text of such headers. -/
theorem text_eq {h : MsgHdrs} {err : HandlerError} (hcode : h.code = 0)
    (hentries : h.headers.entries =
      [(serviceErrorHeader, [String.ofList (trim err.message.toList)]),
        (serviceErrorCodeHeader, [errorCode err])]) : h.text = errorBlock err := by
  have hsize : h.size ≠ 0 := by
    rw [MsgHdrs.size, Foundation.OrderedMap.size, hentries]
    exact Nat.succ_ne_zero _
  have hstatus : h.statusLine = header := by
    rw [MsgHdrs.statusLine, if_neg]
    rintro ⟨hpos, -⟩
    omega
  have hfirst : "NATS/1.0\r\nNats-Service-Error: ".toList =
      header ++ '\r' :: '\n' :: (serviceErrorHeader.toList ++ [':', ' ']) := by
    decide +kernel
  have hsecond : "\r\nNats-Service-Error-Code: ".toList =
      '\r' :: '\n' :: (serviceErrorCodeHeader.toList ++ [':', ' ']) := by
    decide +kernel
  have hlast : "\r\n\r\n".toList = ['\r', '\n', '\r', '\n'] := by
    decide
  rw [MsgHdrs.text, if_neg (fun hempty => hsize hempty.1), hstatus, MsgHdrs.lines, hentries]
  apply String.toList_inj.1
  unfold errorBlock
  simp only [String.toList_append, String.toList_ofList, hfirst, hsecond, hlast, List.flatMap_cons,
    List.flatMap_nil, List.map_cons, List.map_nil, List.append_assoc, List.cons_append,
    List.nil_append, List.append_nil]

/-- **The headers of an answer** are made exactly if the text of the error fits in a line. -/
theorem errorToHeader_spec [Engine] (err : HandlerError) :
    if OneLine err then ∃ h, errorToHeader err = .ok h ∧ Describes err h
    else errorToHeader err = .error .badValue := by
  have hfirst := @set_new _ .new serviceErrorHeader err.message
    (MsgHdrs.fitKey_of_short (by decide) (by decide)) List.not_mem_nil
  split
  · rename_i hline
    have hvalue : validHeaderValue err.message = .ok (String.ofList (trim err.message.toList)) := by
      rw [validHeaderValue, if_neg (not_or.2 hline)]
    rw [hvalue] at hfirst
    obtain ⟨h, hset, hcode, hdescription, hentries⟩ := hfirst
    have hentries : h.headers.entries =
        [(serviceErrorHeader, [String.ofList (trim err.message.toList)])] :=
      hentries
    have hnew : serviceErrorCodeHeader ∉ h.headers.keys := by
      rw [Foundation.OrderedMap.keys, hentries, List.map_singleton, List.mem_singleton]
      show serviceErrorCodeHeader ≠ serviceErrorHeader
      decide
    have hsecond := @set_new _ h serviceErrorCodeHeader (errorCode err)
      (MsgHdrs.fitKey_of_short (by decide) (by decide)) hnew
    rw [validHeaderValue_errorCode] at hsecond
    obtain ⟨h', hset', hcode', hdescription', hentries'⟩ := hsecond
    rw [hentries] at hentries'
    refine ⟨h', ?_, hentries', text_eq (hcode'.trans hcode) hentries'⟩
    rw [errorToHeader, hset]
    simp only [hset']
  · rename_i hline
    have hvalue : validHeaderValue err.message = .error .badValue := by
      rw [validHeaderValue, if_pos (by rw [OneLine] at hline; tauto)]
    rw [hvalue] at hfirst
    obtain ⟨h, hset⟩ := hfirst
    rw [errorToHeader, hset]

/-! ## The answer -/

section

variable {err : HandlerError} {h : MsgHdrs} {info : Option ServerInfo}
    {s t : ServiceImpl E} {msg : Msg}

/-- An answer is published exactly if the server takes its headers. -/
theorem refusal_eq_none_iff (hdescribes : Describes err h) :
    refusal info (.payload (.bytes [])) ⟨"", some (.hdrs h)⟩ = none ↔ Fits info err := by
  have hlength : totalLength (.bytes []) ⟨"", some h⟩ = (errorBlock err).utf8ByteSize := by
    show 0 + (encode h.text).length = _
    rw [hdescribes.text, length_encode, Nat.zero_add]
  simp only [refusal, Data.toPayload, PublishArgs.toOptions, hlength, Option.isSome_some,
    Bool.true_and]
  cases info with
  | none => exact ⟨fun _ i hi => (nomatch hi), fun _ => rfl⟩
  | some i =>
      simp only [Option.any_some, Bool.not_eq_true', decide_eq_true_eq]
      constructor
      · intro hrefusal j hj
        obtain rfl := Option.mem_some.1 hj
        split at hrefusal
        · cases hrefusal
        · rename_i hheaders
          split at hrefusal
          · cases hrefusal
          · exact ⟨Bool.not_eq_false _ ▸ hheaders, Nat.not_lt.1 ‹_›⟩
      · intro hfits
        obtain ⟨hheaders, hsize⟩ := hfits i rfl
        rw [if_neg (by rw [hheaders]; nofun), if_neg (Nat.not_lt.2 hsize)]

/-- An answer that is refused is an exception, and nothing goes out. -/
theorem run_respond_refused {e : PublishFailure} {data : Data} {opts : PublishArgs}
    (hreply : msg.reply ≠ "") (hrefusal : refusal s.nc.info data opts = some e) :
    (respond msg data opts).run s = .error e s := by
  have hpublish := @publish_refused _ port msg.reply _ _ s e hrefusal
  rw [respond, if_pos hreply, EStateM.run_bind, hpublish]

/-- One that is not refused is one frame. -/
theorem run_respond_accepted (hreply : msg.reply ≠ "") (hdescribes : Describes err h)
    (hrefusal : refusal s.nc.info (.payload (.bytes [])) ⟨"", some (.hdrs h)⟩ = none) :
    ∃ s', (respond msg (.payload (.bytes [])) ⟨"", some (.hdrs h)⟩).run s = .ok true s' ∧
      Answered msg.reply err s.nc s'.nc ∧ s'.stats = s.stats := by
  obtain ⟨p, opts, proto, payloads, hp, hopts, hpublish, hrun⟩ :=
    @publish_accepted _ port msg.reply _ _ s hrefusal
  obtain rfl : Wire.Payload.bytes [] = p := Option.some.inj hp
  obtain rfl : (⟨"", some h⟩ : PublishOptions) = opts := Option.some.inj hopts
  refine ⟨port.sendCommand proto payloads (port.count (totalLength (.bytes []) ⟨"", some h⟩) s), ?_,
    ⟨⟨h, proto, payloads, hdescribes, hpublish, ?_⟩, rfl⟩, rfl⟩
  · rw [respond, if_pos hreply, EStateM.run_bind, hrun]
    rfl
  · exact Publishing.stream_sendCommand proto payloads _

/-- A request without a reply subject has no answer. -/
theorem run_respond_none {data : Data} {opts : PublishArgs} (hreply : msg.reply = "") :
    (respond msg data opts).run s = .ok false s := by
  rw [respond, if_neg (not_not.2 hreply)]
  rfl

end

/-! ## The callback -/

section

variable {err : HandlerError} {s t : ServiceImpl E} {msg : Msg} {start now : Int}
  {handler : Msg → Serving E HandlerError Unit}

theorem run_catching {ε ε' : Type} (x : Serving E ε Unit) (f : ε → Serving E ε' Unit)
    (s : ServiceImpl E) :
    (catching x f).run s =
      match x.run s with
      | EStateM.Result.ok _ s' => EStateM.Result.ok () s'
      | EStateM.Result.error err s' => (f err).run s' := rfl

theorem run_ending {ε : Type} (x : Serving E ε Unit) (f : ServiceImpl E → ServiceImpl E)
    (s : ServiceImpl E) :
    (ending x f).run s =
      match x.run s with
      | EStateM.Result.ok _ s' => EStateM.Result.ok () (f s')
      | EStateM.Result.error err s' => EStateM.Result.error err (f s') := rfl

variable [Engine]

/-- The error of a handler is counted and answered, and then the request is counted. -/
theorem run_callback (hthrow : (handler msg).run s = .error err t) :
    (callback handler start now none msg).run s =
      match (onError msg err).run t with
      | EStateM.Result.ok _ s' => EStateM.Result.ok () (s'.withStats (.countLatency start now))
      | EStateM.Result.error e s' =>
          EStateM.Result.error e (s'.withStats (.countLatency start now)) := by
  rw [callback, run_ending, run_catching, hthrow]
  simp only
  cases (onError msg err).run t <;> rfl

/-- An error of more than one line has no headers. -/
theorem run_onError_lines (hline : ¬ OneLine err) :
    (onError msg err).run t = .error (.header .badValue) (t.withStats (.countError err)) := by
  have hspec := errorToHeader_spec err
  rw [if_neg hline] at hspec
  simp only [onError, EStateM.run_bind, EStateM.run_modify, hspec]
  rfl

/-- The answer to any other is a message of its own. -/
theorem run_onError_line (hline : OneLine err) : ∃ h, Describes err h ∧
    (onError msg err).run t =
      match (respond msg (.payload (.bytes [])) ⟨"", some (.hdrs h)⟩).run
      (t.withStats (.countError err)) with
      | EStateM.Result.ok _ s' => EStateM.Result.ok () s'
      | EStateM.Result.error e s' => EStateM.Result.error (.publish e) s' := by
  have hspec := errorToHeader_spec err
  rw [if_pos hline] at hspec
  obtain ⟨h, hheaders, hdescribes⟩ := hspec
  refine ⟨h, hdescribes, ?_⟩
  simp only [onError, EStateM.run_bind, EStateM.run_modify, hheaders, run_adaptExcept]
  cases (respond msg (.payload (.bytes [])) ⟨"", some (.hdrs h)⟩).run
    (t.withStats (.countError err)) <;> rfl

/-- **What the handler throws stays in the callback**, and is answered once, exactly if its text has
no line break and the server takes the headers of the answer. It is counted in any case. -/
theorem error_contained_iff (handler : Msg → Serving E HandlerError Unit)
    (start now : Int) (msg : Msg) (err : HandlerError) (s t : ServiceImpl E)
    (hthrow : (handler msg).run s = .error err t) :
    (Contained msg err t ((callback handler start now none msg).run s) ↔
      OneLine err ∧ (msg.reply ≠ "" → Fits t.nc.info err)) ∧
    match (callback handler start now none msg).run s with
    | .ok _ s' | .error _ s' => Counted err t.stats s'.stats := by
  rw [run_callback hthrow]
  by_cases hline : OneLine err
  · obtain ⟨h, hdescribes, hrun⟩ := @run_onError_line E err t msg _ hline
    rw [hrun]
    by_cases hreply : msg.reply = ""
    · -- there is nothing to publish
      rw [run_respond_none hreply]
      refine ⟨⟨fun _ => ⟨hline, fun hne => absurd hreply hne⟩, fun _ => ⟨?_, rfl, rfl, rfl⟩⟩,
        rfl, rfl, rfl⟩
      rw [if_pos hreply]
      rfl
    · cases hrefusal : refusal t.nc.info (.payload (.bytes [])) ⟨"", some (.hdrs h)⟩ with
      | some e =>
          have hrefused :=
            @run_respond_refused E (t.withStats (.countError err)) msg _ _ _ hreply hrefusal
          rw [hrefused]
          refine ⟨⟨False.elim, fun hfits => ?_⟩, rfl, rfl, rfl⟩
          rw [(refusal_eq_none_iff hdescribes).2 (hfits.2 hreply)] at hrefusal
          cases hrefusal
      | none =>
          obtain ⟨s', hrespond, hanswered, hstats⟩ :=
            @run_respond_accepted E err h (t.withStats (.countError err)) msg hreply
              hdescribes hrefusal
          rw [hrespond]
          have hcounted : Counted err t.stats (s'.withStats (.countLatency start now)).stats := by
            show Counted err t.stats (s'.stats.countLatency start now)
            rw [hstats]
            exact ⟨rfl, rfl, rfl⟩
          refine ⟨⟨fun _ => ⟨hline, fun _ => (refusal_eq_none_iff hdescribes).1 hrefusal⟩,
            fun _ => ⟨?_, hcounted⟩⟩, hcounted⟩
          rw [if_neg hreply]
          exact hanswered
  · rw [run_onError_lines hline]
    exact ⟨⟨False.elim, fun h => absurd h.1 hline⟩, rfl, rfl, rfl⟩

end

/-- A service on a connection that is not up, with nothing counted. -/
def fresh (info : Option ServerInfo) : ServiceImpl E where
  nc := ⟨.new 1024 2, info, 0, 0⟩
  stats := ⟨0, 0, 0, 0, none⟩
  stopped := false
  reason := none
  handlers := [1]
  internals := []
  drained := []

/-- The code `400`, and a text with spaces around it. -/
theorem error_contained_iff_serviceError :
    letI : Engine := .common
    let handler : Msg → Serving Unit HandlerError Unit :=
      fun _ => throw (.serviceError ⟨"400", List.all_eq_true.1 rfl⟩ " bad request ")
    let msg : Msg := ⟨"echo", "_INBOX.1", []⟩
    ∃ s', (callback handler 0 1 none msg).run (fresh (some ⟨true, 1024⟩)) = .ok () s' ∧
      s'.stats = ⟨1, 1000000, 1000000, 1, some " bad request "⟩ := by
  let _ : Engine := .common
  intro handler msg
  have hcontained := (error_contained_iff handler 0 1 msg _ (fresh (some ⟨true, 1024⟩)) _ rfl).1.2
    ⟨by decide +kernel, fun _ => by decide +kernel⟩
  have hstats : (match (callback handler 0 1 none msg).run (fresh (some ⟨true, 1024⟩)) with
      | .ok _ s' | .error _ s' => s'.stats) = ⟨1, 1000000, 1000000, 1, some " bad request "⟩ := by
    decide +kernel
  cases hrun : (callback handler 0 1 none msg).run (fresh (some ⟨true, 1024⟩)) with
  | error e s' =>
      rw [hrun] at hcontained
      exact hcontained.elim
  | ok u s' =>
      rw [hrun] at hstats
      exact ⟨s', rfl, hstats⟩

/-- The exception of a text of two lines leaves the callback. -/
theorem not_error_contained :
    letI : Engine := .common
    ¬ ∀ (handler : Msg →
      Serving Unit HandlerError Unit) (start now : Int) (msg : Msg) (err : HandlerError)
        (s t : ServiceImpl Unit), (handler msg).run s = .error err t → msg.reply ≠ "" →
      Contained msg err t ((callback handler start now none msg).run s) := by
  let _ : Engine := .common
  intro h
  let handler : Msg → Serving Unit HandlerError Unit := fun _ => throw (.error "line 1\nline 2")
  have hcontained := h handler 0 1 ⟨"echo", "_INBOX.1", []⟩ (.error "line 1\nline 2")
    (fresh (some ⟨true, 1024⟩)) (fresh (some ⟨true, 1024⟩)) rfl (by decide)
  have hescapes : (match (callback handler 0 1 none ⟨"echo", "_INBOX.1", []⟩).run
      (fresh (some ⟨true, 1024⟩)) with
    | .ok _ _ => false
    | .error _ _ => true) = true := by
    decide +kernel
  cases hrun : (callback handler 0 1 none ⟨"echo", "_INBOX.1", []⟩).run
    (fresh (some ⟨true, 1024⟩)) with
  | ok u s' =>
      rw [hrun] at hescapes
      cases hescapes
  | error e s' =>
      rw [hrun] at hcontained
      exact hcontained

end ServiceImpl

end NatsClient.Service
