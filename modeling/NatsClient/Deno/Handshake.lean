import NatsClient.Foundation.Pattern
import NatsClient.Wire.Headers

/-!
# The first bytes of a connection

Model of `connect`, `peekInfo` and the iterator of `DenoTransport` (`deno_transport.ts`), with
`protoLen` and `extractProtocolMessage` (`transport.ts`) and `checkOptions` (`options.ts`). The
socket reads into an array of the transport, and what `peekInfo` collects are views of that array
until `pack` copies them.

The second read overwrites the first, which is still a view. So the client gets the bytes of the
server exactly if the first read has the whole line of the INFO, or the second repeats it as far as
both reach (`peekInfo_exact`); then it does not matter how the bytes are cut into reads
(`connect_exact`).
-/

set_option autoImplicit false

namespace NatsClient.Deno

open NatsClient.Foundation NatsClient.Wire

/-! ## The line of the INFO -/

/-- The loop of `protoLen`, with its counter. -/
def protoLenFrom : Nat → Bytes → Nat
  | i, a :: b :: rest => if a = 13 ∧ b = 10 then i + 2 else protoLenFrom (i + 1) (b :: rest)
  | _, [_] | _, [] => 0

/-- `protoLen(ba)`: the number of bytes up to the first CRLF and with it, or `0`. -/
def protoLen (ba : Bytes) : Nat := protoLenFrom 0 ba

/-- `extractProtocolMessage(a)`. -/
def extractProtocolMessage (a : Bytes) : String :=
  if 0 < protoLen a then decode (a.take (protoLen a)) else ""

/-- A letter of a pattern that ignores case. -/
def letter (c : Char) : Pattern.Piece Char := .one fun d => d.toUpper = c

/-- `INFO`. -/
def INFO : List (Pattern.Piece Char) :=
  [letter 'I', letter 'N', letter 'F', letter 'O', .plus isSpace, .plus fun c => c ≠ '\r' ∧
    c ≠ '\n', .one (· = '\r'), .one (· = '\n')]

/-- `INFO.exec(pm)`, as far as its group goes. -/
def infoArg (pm : String) : Option (List Char) :=
  (Pattern.matchHere INFO pm.toList).bind fun ms => ms[5]?

/-! ## Reads -/

/-- An array in the `DataBuffer` of `peekInfo`: the front of the array of the transport, or one of
its own. -/
inductive Slice where
  | view (n : Nat)
  | own (bytes : Bytes)
deriving DecidableEq, Repr

/-- What the array holds now. -/
def Slice.bytes (buf : Bytes) : Slice → Bytes
  | .view n => buf.take n
  | .own bytes => bytes

/-- `this.buf` and `inbound` of `peekInfo`. -/
structure Peek where
  buf : Bytes
  buffers : List Slice
deriving DecidableEq, Repr

namespace Peek

/-- `pack()`: more than one array are copied into a new one. -/
def pack (s : Peek) : Peek :=
  if 1 < s.buffers.length then { s with buffers := [.own (s.buffers.flatMap (Slice.bytes s.buf))] }
  else s

/-- `conn.read(this.buf)` with `fill` and the `pack` of `peek()`; the array is written from its
beginning. -/
def read (s : Peek) (c : Bytes) : Peek :=
  pack { buf := c ++ s.buf.drop c.length, buffers := s.buffers ++ [.view c.length] }

/-- `inbound.peek()`, and behind the loop `inbound.drain()`. -/
def raw (s : Peek) : Bytes :=
  match s.buffers with
  | [] => []
  | slice :: _ => slice.bytes s.buf

/-- The loop of `peekInfo`: what it collected and the reads behind. `none` is the end of the
socket. -/
def loop : Peek → List Bytes → Option (Bytes × List Bytes)
  | _, [] => none
  | s, c :: reads =>
      if c = [] then loop s reads
      else if extractProtocolMessage (s.read c).raw ≠ "" then some ((s.read c).raw, reads)
      else loop (s.read c) reads

end Peek

/-- The size of the array of a transport. -/
def ReadBufferSize : Nat := 1024 * 256

/-- `peekInfo()` up to the check of the line. -/
def peek (reads : List Bytes) : Option (Bytes × List Bytes) :=
  Peek.loop ⟨List.replicate ReadBufferSize 0, []⟩ reads

/-! ## The connection -/

/-- The fields of the INFO that the options are checked against. -/
structure ServerInfo where
  proto : Option Int
  tlsRequired : Option Bool
  tlsAvailable : Option Bool
deriving DecidableEq, Repr

/-- `options.tls`. -/
inductive Tls where
  | missing
  | null
  | given (handshakeFirst : Bool)
deriving DecidableEq, Repr

/-- The options that a transport goes by. -/
structure ConnectionOptions where
  noEcho : Bool
  tls : Tls
deriving DecidableEq, Repr

/-- What `connect` throws. -/
inductive ConnectError where
  | socketClosed
  | unexpectedResponse
  | badJson
  | optionNotAvailable (option : String)
deriving DecidableEq, Repr

/-- `handshakeFirst`. -/
def Tls.handshakeFirst : Tls → Bool
  | .given handshakeFirst => handshakeFirst
  | .missing | .null => false

/-- `checkOptions(info, options)`. -/
def checkOptions (info : ServerInfo) (options : ConnectionOptions) : Except ConnectError Unit :=
  if (info.proto = none ∨ ∃ proto ∈ info.proto, proto < 1) ∧ options.noEcho = true then
    .error (.optionNotAvailable "noEcho")
  else
    let tls := info.tlsRequired.getD false || info.tlsAvailable.getD false
    match options.tls with
    | .given _ => if tls then .ok () else .error (.optionNotAvailable "tls")
    | .missing | .null => .ok ()

/-- A transport that is connected: the INFO, whether it is encrypted, and what its iterator yields
before the end of the socket. -/
structure Connection where
  info : ServerInfo
  encrypted : Bool
  frames : List Bytes
deriving DecidableEq, Repr

section

variable (parse : List Char → Option ServerInfo)

/-- `peekInfo()`: the INFO and the frames; `parse` is `JSON.parse`. -/
def peekInfo (reads : List Bytes) : Except ConnectError (ServerInfo × List Bytes) :=
  match peek reads with
  | none => .error .socketClosed
  | some (raw, rest) =>
      match infoArg (extractProtocolMessage raw) with
      | none => .error .unexpectedResponse
      | some arg =>
          match parse arg with
          | none => .error .badJson
          | some info => .ok (info, raw :: rest.filter (· ≠ []))

/-- `connect(hp, options)`, where the socket and the handshakes of TLS do not fail. The iterator
yields what `peekInfo` collected and then the reads of the connection, which are `secured` behind
`startTLS`. -/
def connect (options : ConnectionOptions) (reads secured : List Bytes) :
    Except ConnectError Connection :=
  match peekInfo parse reads with
  | .error err => .error err
  | .ok (info, frames) =>
      match checkOptions info options with
      | .error err => .error err
      | .ok () =>
          let desired := info.tlsAvailable = some true ∧ options.tls ≠ .null
          if options.tls.handshakeFirst then .ok ⟨info, true, frames⟩
          else if info.tlsRequired = some true ∨ desired then
            .ok ⟨info, true, frames.take 1 ++ secured.filter (· ≠ [])⟩
          else .ok ⟨info, false, frames⟩

end

/-- The second read leaves this of the first. -/
def overwritten (c₁ c₂ : Bytes) : Bytes := c₂.take c₁.length ++ c₁.drop c₂.length

/-- The first read has a line, or the second repeats it as far as both reach. -/
def Intact (reads : List Bytes) : Prop :=
  match reads.filter (· ≠ []) with
  | c₁ :: c₂ :: _ => protoLen c₁ ≠ 0 ∨ overwritten c₁ c₂ = c₁
  | [_] | [] => True

instance (reads : List Bytes) : Decidable (Intact reads) := by
  unfold Intact
  split <;> infer_instance

/-! ## Lines -/

section

variable {a b : Bytes} {i : Nat}

/-- The counter of `protoLen` is added. -/
theorem protoLenFrom_eq : ∀ (i : Nat) (a : Bytes),
    protoLenFrom i a = if protoLen a = 0 then 0 else i + protoLen a := by
  have hshift : ∀ (a : Bytes) (i j : Nat), (protoLenFrom i a = 0 ↔ protoLenFrom j a = 0) ∧
      (protoLenFrom i a ≠ 0 → protoLenFrom i a + j = protoLenFrom j a + i) := by
    intro a
    induction a with
    | nil => exact fun i j => ⟨Iff.rfl, fun h => absurd rfl h⟩
    | cons x xs ih =>
        cases xs with
        | nil => exact fun i j => ⟨Iff.rfl, fun h => absurd rfl h⟩
        | cons y ys =>
            intro i j
            by_cases hline : x = 13 ∧ y = 10
            · simp only [protoLenFrom, if_pos hline]
              omega
            · simp only [protoLenFrom, if_neg hline]
              obtain ⟨hzero, hsum⟩ := ih (i + 1) (j + 1)
              exact ⟨hzero, fun h => by have := hsum h; omega⟩
  intro i a
  obtain ⟨hzero, hsum⟩ := hshift a i 0
  by_cases h : protoLen a = 0
  · rw [if_pos h]
    exact hzero.2 h
  · rw [if_neg h]
    have := hsum (fun hi => h (hzero.1 hi))
    rw [protoLen]
    omega

theorem protoLen_cons (x y : UInt8) (ys : Bytes) : protoLen (x :: y :: ys) =
    if x = 13 ∧ y = 10 then 2 else if protoLen (y :: ys) = 0 then 0 else 1 + protoLen
    (y :: ys) := by
  rw [protoLen, protoLenFrom, ← protoLenFrom_eq 1]

/-- **The first line**: a text with a CRLF is cut behind the first. -/
theorem take_protoLen (h : protoLen a ≠ 0) : ∃ pre, a.take (protoLen a) = pre ++ [13, 10] := by
  induction a with
  | nil => exact absurd rfl h
  | cons x xs ih =>
      cases xs with
      | nil => exact absurd rfl h
      | cons y ys =>
          rw [protoLen_cons] at h ⊢
          by_cases hline : x = 13 ∧ y = 10
          · rw [if_pos hline, hline.1, hline.2]
            exact ⟨[], rfl⟩
          · rw [if_neg hline] at h ⊢
            have hlater : protoLen (y :: ys) ≠ 0 := fun hzero => h (if_pos hzero)
            obtain ⟨pre, hpre⟩ := ih hlater
            rw [if_neg hlater, Nat.add_comm, List.take_succ_cons, hpre]
            exact ⟨x :: pre, rfl⟩

/-- More bytes behind a line change nothing. -/
theorem protoLen_append (h : protoLen a ≠ 0) :
    protoLen (a ++ b) = protoLen a ∧ protoLen a ≤ a.length := by
  induction a with
  | nil => exact absurd rfl h
  | cons x xs ih =>
      cases xs with
      | nil => exact absurd rfl h
      | cons y ys =>
          simp only [List.cons_append] at ih ⊢
          rw [protoLen_cons] at h
          rw [protoLen_cons, protoLen_cons]
          by_cases hline : x = 13 ∧ y = 10
          · rw [if_pos hline, if_pos hline]
            exact ⟨rfl, by simp only [List.length_cons]; omega⟩
          · rw [if_neg hline] at h
            have hlater : protoLen (y :: ys) ≠ 0 := fun hzero => h (if_pos hzero)
            obtain ⟨hsame, hle⟩ := ih hlater
            rw [if_neg hline, if_neg hline, hsame, if_neg hlater]
            refine ⟨rfl, ?_⟩
            rw [List.length_cons]
            omega

/-- A line is not decoded to nothing. -/
theorem extractProtocolMessage_ne : extractProtocolMessage a ≠ "" ↔ protoLen a ≠ 0 := by
  rw [extractProtocolMessage]
  by_cases h : protoLen a = 0
  · rw [if_neg (by omega)]
    exact ⟨fun hne => absurd rfl hne, fun hne => absurd h hne⟩
  · rw [if_pos (by omega)]
    refine ⟨fun _ => h, fun _ hempty => ?_⟩
    obtain ⟨pre, hpre⟩ := take_protoLen h
    rw [hpre, decode] at hempty
    -- what is left behind a byte order mark still has the CRLF
    have hleft : ∃ b bs, dropMark (pre ++ [13, 10]) = b :: bs := by
      rw [dropMark.eq_def]
      split
      · rename_i bs heq
        cases bs with
        | nil =>
            have hlast := congrArg List.getLast? heq
            rw [List.getLast?_append] at hlast
            have hbyte : (10 : UInt8) = 191 := Option.some.inj hlast
            exact absurd hbyte (by decide)
        | cons b bs => exact ⟨b, bs, rfl⟩
      · cases pre with
        | nil => exact ⟨13, [10], rfl⟩
        | cons b bs => exact ⟨b, bs ++ [13, 10], rfl⟩
    obtain ⟨b, bs, hdrop⟩ := hleft
    have hchars := congrArg String.toList hempty
    simp only [hdrop, List.length_cons, decodeChars, String.toList_ofList] at hchars
    rw [if_neg (List.cons_ne_nil _ _)] at hchars
    split at hchars
    · exact List.cons_ne_nil _ _ hchars
    · exact List.cons_ne_nil _ _ hchars

/-- The line of a text is that of its front. -/
theorem extractProtocolMessage_append (h : protoLen a ≠ 0) :
    extractProtocolMessage (a ++ b) = extractProtocolMessage a := by
  obtain ⟨hsame, hle⟩ := protoLen_append (b := b) h
  rw [extractProtocolMessage, extractProtocolMessage, hsame, List.take_append_of_le_length hle]

end

/-! ## What is collected -/

/-- Behind the bytes `r` the reads are collected as they are, up to the first line. -/
structure Collects (r : Bytes) (reads : List Bytes) (result : Option (Bytes × List Bytes)) :
    Prop where
  found : ∀ raw rest, result = some (raw, rest) → raw ++ rest.flatten = r ++ reads.flatten ∧
    protoLen raw ≠ 0
  ended : result = none → protoLen (r ++ reads.flatten) = 0

section

variable {r c₁ c₂ buf : Bytes} {reads reads' : List Bytes} {result : Option (Bytes × List Bytes)}

/-- The line that is collected is that of all the bytes. -/
theorem Collects.line (h : Collects r reads result) :
    result.map (fun p => extractProtocolMessage p.1) =
      if protoLen (r ++ reads.flatten) = 0 then none
      else some (extractProtocolMessage (r ++ reads.flatten)) := by
  cases hresult : result with
  | none => rw [if_pos (h.ended hresult), Option.map_none]
  | some p =>
      obtain ⟨raw, rest⟩ := p
      obtain ⟨hbytes, hline⟩ := h.found raw rest hresult
      rw [← hbytes, (protoLen_append hline).1, if_neg hline, extractProtocolMessage_append hline,
        Option.map_some]

theorem Collects.skip (h : Collects r reads result) : Collects r ([] :: reads) result where
  found := h.found
  ended := h.ended

namespace Peek

theorem loop_nil (s : Peek) : loop s ([] :: reads) = loop s reads := by rw [loop, if_pos rfl]

theorem loop_line (s : Peek) {c : Bytes} (hc : c ≠ []) (hline : protoLen (s.read c).raw ≠ 0) :
    loop s (c :: reads) = some ((s.read c).raw, reads) := by
  rw [loop, if_neg hc, if_pos (extractProtocolMessage_ne.2 hline)]

theorem loop_more (s : Peek) {c : Bytes} (hc : c ≠ []) (hline : protoLen (s.read c).raw = 0) :
    loop s (c :: reads) = loop (s.read c) reads := by
  rw [loop, if_neg hc, if_neg (fun hne => extractProtocolMessage_ne.1 hne hline)]

/-- The first read is a view. -/
theorem read_first (c : Bytes) :
    read ⟨buf, []⟩ c = ⟨c ++ buf.drop c.length, [.view c.length]⟩ := rfl

theorem raw_view (c : Bytes) : raw ⟨c ++ buf, [.view c.length]⟩ = c := List.take_left

/-- **The second read overwrites the first**, and both are copied. -/
theorem read_second (buf c₁ c₂ : Bytes) : read ⟨c₁ ++ buf, [.view c₁.length]⟩ c₂ =
    ⟨c₂ ++ (c₁ ++ buf).drop c₂.length, [.own (overwritten c₁ c₂ ++ c₂)]⟩ := by
  have hview : (c₂ ++ (c₁ ++ buf).drop c₂.length).take c₁.length = overwritten c₁ c₂ := by
    rw [overwritten, List.take_append]
    congr 1
    rw [List.drop_append, List.take_append, List.take_of_length_le (by rw [List.length_drop])]
    rw [List.length_drop, Nat.sub_self, List.take_zero, List.append_nil]
  have hfront : (c₂ ++ (c₁ ++ buf).drop c₂.length).take c₂.length = c₂ := List.take_left
  show Peek.mk _
      [.own (Slice.bytes _ (.view c₁.length) ++ (Slice.bytes _ (.view c₂.length) ++ []))] = _
  rw [Slice.bytes, Slice.bytes, hview, hfront, List.append_nil]

/-- What is copied stays. -/
theorem read_own (buf r c : Bytes) :
    read ⟨buf, [.own r]⟩ c = ⟨c ++ buf.drop c.length, [.own (r ++ c)]⟩ := by
  have hfront : (c ++ buf.drop c.length).take c.length = c := List.take_left
  show Peek.mk _ [.own (r ++ (Slice.bytes _ (.view c.length) ++ []))] = _
  rw [Slice.bytes, hfront, List.append_nil]

/-- From the second read on. -/
theorem loop_own : ∀ (reads : List Bytes) (buf : Bytes) {r : Bytes}, protoLen r = 0 →
    Collects r reads (loop ⟨buf, [.own r]⟩ reads) := by
  intro reads
  induction reads with
  | nil =>
      intro buf r hr
      refine ⟨fun raw rest h => absurd h (Option.some_ne_none _).symm, fun _ => ?_⟩
      rw [List.flatten_nil, List.append_nil]
      exact hr
  | cons c reads ih =>
      intro buf r hr
      by_cases hc : c = []
      · rw [hc, loop_nil]
        exact (ih buf hr).skip
      · have hread := read_own buf r c
        by_cases hline : protoLen (r ++ c) = 0
        · have hmore := ih (c ++ buf.drop c.length) hline
          rw [loop_more _ hc (by rw [hread]; exact hline), hread]
          refine ⟨fun raw rest h => ?_, fun h => ?_⟩
          · rw [List.flatten_cons, ← List.append_assoc]
            exact hmore.found raw rest h
          · rw [List.flatten_cons, ← List.append_assoc]
            exact hmore.ended h
        · rw [loop_line _ hc (by rw [hread]; exact hline), hread]
          refine ⟨fun raw rest h => ?_, fun h => absurd h (Option.some_ne_none _)⟩
          cases h
          rw [List.flatten_cons, ← List.append_assoc]
          exact ⟨rfl, hline⟩

/-- From the first read on, which had no line. -/
theorem loop_view (buf : Bytes) : ∀ (reads : List Bytes), protoLen c₁ = 0 →
    match reads.filter (· ≠ []) with
    | c₂ :: _ => Collects (overwritten c₁ c₂) reads (loop ⟨c₁ ++ buf, [.view c₁.length]⟩ reads)
    | [] => loop ⟨c₁ ++ buf, [.view c₁.length]⟩ reads = none := by
  intro reads hfirst
  induction reads with
  | nil => rfl
  | cons c reads ih =>
      by_cases hc : c = []
      · rw [hc, loop_nil, List.filter_cons_of_neg (by decide)]
        cases hreads : reads.filter (· ≠ []) with
        | nil =>
            rw [hreads] at ih
            exact ih
        | cons c₂ cs =>
            rw [hreads] at ih
            exact ih.skip
      · rw [List.filter_cons_of_pos (by rw [decide_eq_true_iff]; exact hc)]
        have hread := read_second buf c₁ c
        show Collects (overwritten c₁ c) (c :: reads) _
        by_cases hline : protoLen (overwritten c₁ c ++ c) = 0
        · have hmore := loop_own reads (c ++ (c₁ ++ buf).drop c.length) hline
          rw [loop_more _ hc (by rw [hread]; exact hline), hread]
          refine ⟨fun raw rest h => ?_, fun h => ?_⟩
          · rw [List.flatten_cons, ← List.append_assoc]
            exact hmore.found raw rest h
          · rw [List.flatten_cons, ← List.append_assoc]
            exact hmore.ended h
        · rw [loop_line _ hc (by rw [hread]; exact hline), hread]
          refine ⟨fun raw rest h => ?_, fun h => absurd h (Option.some_ne_none _)⟩
          cases h
          rw [List.flatten_cons, ← List.append_assoc]
          exact ⟨rfl, hline⟩

end Peek

/-- What the client gets of some reads. -/
def landed (reads : List Bytes) : Bytes :=
  match reads.filter (· ≠ []) with
  | c₁ :: c₂ :: cs => (if protoLen c₁ = 0 then overwritten c₁ c₂ else c₁) ++ (c₂ :: cs).flatten
  | [c] => c
  | [] => []

theorem landed_nil : landed ([] :: reads) = landed reads := by
  rw [landed, landed, List.filter_cons_of_neg (by decide)]

/-- **What `peekInfo` collects.** -/
theorem peek_spec (reads : List Bytes) : Collects (landed reads) [] (peek reads) := by
  rw [peek]
  generalize List.replicate ReadBufferSize (0 : UInt8) = buf
  induction reads with
  | nil => exact ⟨fun raw rest h => absurd h (Option.some_ne_none _).symm, fun _ => rfl⟩
  | cons c reads ih =>
      by_cases hc : c = []
      · rw [hc, Peek.loop_nil, landed_nil]
        exact ih
      · have hraw : (Peek.read ⟨buf, []⟩ c).raw = c := by
          rw [Peek.read_first]
          exact Peek.raw_view c
        have hlanded : landed (c :: reads) =
            match reads.filter (· ≠ []) with
            | c₂ :: _ => (if protoLen c = 0 then overwritten c c₂ else c) ++ reads.flatten
            | [] => c := by
          rw [landed, List.filter_cons_of_pos (by rw [decide_eq_true_iff]; exact hc)]
          cases hreads : reads.filter (· ≠ []) with
          | nil => rfl
          | cons c₂ cs =>
              have hflatten : (c₂ :: cs).flatten = reads.flatten := by
                rw [← hreads]
                exact List.flatten_filter_ne_nil
              simp only [hflatten]
        -- without a line in the first read, the loop reads the next one over it
        by_cases hline : protoLen c = 0
        · rw [Peek.loop_more _ hc (by rw [hraw]; exact hline), Peek.read_first, hlanded]
          have hview := Peek.loop_view (buf.drop c.length) reads hline
          cases hreads : reads.filter (· ≠ []) with
          | nil =>
              rw [hreads] at hview
              rw [hview]
              -- there is no second read, so no line is found
              exact ⟨fun raw rest h => absurd h (Option.some_ne_none _).symm, fun _ => by
                rw [List.flatten_nil, List.append_nil]
                exact hline⟩
          | cons c₂ cs =>
              rw [hreads] at hview
              simp only [if_pos hline]
              refine ⟨fun raw rest h => ?_, fun h => ?_⟩
              · rw [List.flatten_nil, List.append_nil]
                exact hview.found raw rest h
              · rw [List.flatten_nil, List.append_nil]
                exact hview.ended h
        · rw [Peek.loop_line _ hc (by rw [hraw]; exact hline), hraw, hlanded]
          refine ⟨fun raw rest h => ?_, fun h => absurd h (Option.some_ne_none _)⟩
          cases h
          refine ⟨?_, hline⟩
          rw [List.flatten_nil, List.append_nil]
          cases hreads : reads.filter (· ≠ []) with
          | nil =>
              have hflatten : reads.flatten = [] := by
                rw [← List.flatten_filter_ne_nil, hreads]
                rfl
              rw [hflatten, List.append_nil]
          | cons c₂ cs => simp only [if_neg hline]

/-- The client gets what the server sent exactly from the reads that are intact. -/
theorem landed_eq_iff (reads : List Bytes) : landed reads = reads.flatten ↔ Intact reads := by
  rw [landed, Intact, ← List.flatten_filter_ne_nil (L := reads)]
  cases reads.filter (· ≠ []) with
  | nil => exact ⟨fun _ => trivial, fun _ => rfl⟩
  | cons c₁ cs =>
      cases cs with
      | nil => exact ⟨fun _ => trivial, fun _ => List.flatten_singleton.symm⟩
      | cons c₂ cs =>
          simp only
          rw [List.flatten_cons (l := c₁), List.append_cancel_right_eq]
          by_cases hline : protoLen c₁ = 0
          · rw [if_pos hline]
            exact ⟨Or.inr, fun h => h.resolve_left fun hne => hne hline⟩
          · rw [if_neg hline]
            exact ⟨fun _ => Or.inl hline, fun _ => rfl⟩

/-- **The INFO under any cut into reads.** What `peekInfo` collected and the reads behind are the
bytes of the server exactly if the reads are intact; then the line is that of these bytes, and there
is one if they have one. -/
theorem peekInfo_exact (reads : List Bytes) :
    (∀ raw rest, peek reads = some (raw, rest) →
      (raw ++ rest.flatten = reads.flatten ↔ Intact reads)) ∧
      (Intact reads → (peek reads).map (fun p => extractProtocolMessage p.1) =
        if protoLen reads.flatten = 0 then none
        else some (extractProtocolMessage reads.flatten)) := by
  have hspec := peek_spec reads
  constructor
  · intro raw rest hfound
    obtain ⟨hbytes, -⟩ := hspec.found raw rest hfound
    rw [List.flatten_nil, List.append_nil] at hbytes
    rw [hbytes]
    exact landed_eq_iff reads
  · intro hintact
    have hline := hspec.line
    rw [List.flatten_nil, List.append_nil, (landed_eq_iff reads).2 hintact] at hline
    exact hline

/-- A line in two reads. -/
example :
    (peek [encode "INFO ", encode "{}\r\n"]).map (fun p => extractProtocolMessage p.1) =
      some "{}\r\n" := by
  decide +kernel

end

/-! ## The connection of any reads -/

section

variable {parse : List Char → Option ServerInfo} {reads reads' secured : List Bytes}
    {options : ConnectionOptions}

/-- The INFO depends on the line only. -/
theorem peekInfo_map (h : (peek reads).map (fun p => extractProtocolMessage p.1) =
    (peek reads').map (fun p => extractProtocolMessage p.1)) :
    (peekInfo parse reads).map Prod.fst = (peekInfo parse reads').map Prod.fst := by
  rw [peekInfo, peekInfo]
  cases hpeek : peek reads with
  | none =>
      rw [hpeek] at h
      rw [Option.map_eq_none_iff.1 h.symm]
  | some p =>
      rw [hpeek] at h
      obtain ⟨p', hp', hline⟩ := Option.map_eq_some_iff.1 h.symm
      rw [hp']
      simp only [hline]
      cases infoArg (extractProtocolMessage p.1) with
      | none => rfl
      | some arg =>
          cases hparse : parse arg with
          | none => simp only [hparse]
          | some info => simp only [hparse]; rfl

/-- What the reads decide besides the bytes. -/
theorem connect_map (parse : List Char → Option ServerInfo) (options : ConnectionOptions)
    (reads secured : List Bytes) :
    (connect parse options reads secured).map (fun c => (c.info, c.encrypted)) =
    match (peekInfo parse reads).map Prod.fst with
    | .error err => .error err
    | .ok info => (checkOptions info options).map fun _ =>
        (info, decide (options.tls.handshakeFirst = true ∨ info.tlsRequired = some true ∨
          (info.tlsAvailable = some true ∧ options.tls ≠ .null))) := by
  rw [connect]
  cases hpeek : peekInfo parse reads with
  | error err => rfl
  | ok p =>
      obtain ⟨info, frames⟩ := p
      simp only [Except.map]
      cases hcheck : checkOptions info options with
      | error err => rfl
      | ok u =>
          cases u
          by_cases hfirst : options.tls.handshakeFirst = true
          · simp only [hfirst, if_true, true_or, decide_true]
          · simp only [hfirst, Bool.false_eq_true, if_false, false_or]
            by_cases htls : info.tlsRequired = some true ∨
              (info.tlsAvailable = some true ∧ options.tls ≠ .null)
            · simp only [htls, if_true, decide_true]
            · simp only [htls, if_false, decide_false]

/-- An option the server does not have is an error. -/
theorem checkOptions_eq_ok {info : ServerInfo} (h : checkOptions info options = .ok ()) :
    (options.noEcho = true → ∃ proto ∈ info.proto, 1 ≤ proto) ∧
      ∀ first, options.tls = .given first → info.tlsRequired = some true ∨
      info.tlsAvailable = some true := by
  rw [checkOptions] at h
  split at h
  · cases h
  · rename_i hproto
    refine ⟨fun hecho => ?_, fun first htls => ?_⟩
    · rw [not_and_or, not_or] at hproto
      obtain ⟨hsome, hge⟩ := hproto.resolve_right fun hne => hne hecho
      cases hp : info.proto with
      | none => exact absurd hp hsome
      | some proto =>
          refine ⟨proto, rfl, ?_⟩
          by_contra hlt
          exact hge ⟨proto, hp, by omega⟩
    · simp only [htls] at h
      split at h
      · rename_i hserver
        rw [Bool.or_eq_true] at hserver
        refine hserver.imp (fun hreq => ?_) fun hav => ?_
        · cases hr : info.tlsRequired with
          | none => rw [hr] at hreq; cases hreq
          | some b => rw [hr] at hreq; exact congrArg some hreq
        · cases ha : info.tlsAvailable with
          | none => rw [ha] at hav; cases hav
          | some b => rw [ha] at hav; exact congrArg some hav
      · cases h

/-- The frames of a connection that was not upgraded are what was collected and the reads behind. -/
theorem frames_of_plain {c : Connection} (h : connect parse options reads secured = .ok c)
    (hplain : c.encrypted = false ∨ options.tls.handshakeFirst = true) :
    ∃ raw rest, peek reads = some (raw, rest) ∧ c.frames = raw :: rest.filter (· ≠ []) := by
  rw [connect] at h
  cases hpeek : peekInfo parse reads with
  | error err =>
      rw [hpeek] at h
      cases h
  | ok p =>
      obtain ⟨info, frames⟩ := p
      rw [hpeek] at h
      simp only at h
      have hframes : c.frames = frames := by
        split at h
        · cases h
        · split at h
          · cases h
            rfl
          · rename_i hfirst
            split at h
            · cases h
              exact absurd (hplain.resolve_left fun hne => by cases hne) hfirst
            · cases h
              rfl
      rw [peekInfo] at hpeek
      split at hpeek
      · cases hpeek
      · rename_i raw rest hcollected
        split at hpeek
        · cases hpeek
        · split at hpeek
          · cases hpeek
          · cases hpeek
            exact ⟨raw, rest, hcollected, hframes⟩

/-- **A connection does not depend on how its bytes are cut**, where the reads are intact: it fails,
or has the INFO and the encryption, as if all bytes came in one read, and without an upgrade it
yields all of them. It is encrypted where the handshake comes first, the server requires TLS, or
offers it and the client did not refuse; so always where the client has options for TLS. -/
theorem connect_exact (parse : List Char → Option ServerInfo) (options : ConnectionOptions)
    (reads secured : List Bytes) (h : Intact reads) :
    (connect parse options reads secured).map (fun c => (c.info, c.encrypted)) =
        (connect parse options [reads.flatten] secured).map (fun c => (c.info, c.encrypted)) ∧
      ∀ c, connect parse options reads secured = .ok c →
        (c.encrypted = false ∨ options.tls.handshakeFirst = true →
          c.frames.flatten = reads.flatten) ∧
          (c.encrypted = true ↔ options.tls.handshakeFirst = true ∨ c.info.tlsRequired = some true ∨
            (c.info.tlsAvailable = some true ∧ options.tls ≠ .null)) ∧
          (∀ first, options.tls = .given first → c.encrypted = true) ∧
          (options.noEcho = true → ∃ proto ∈ c.info.proto, 1 ≤ proto) := by
  -- a single read overwrites nothing
  have hone : Intact [reads.flatten] := by
    rw [Intact]
    by_cases hempty : reads.flatten = []
    · rw [hempty]
      trivial
    · rw [List.filter_cons_of_pos (by rw [decide_eq_true_iff]; exact hempty)]
      trivial
  have hline := (peekInfo_exact reads).2 h
  have hline' := (peekInfo_exact [reads.flatten]).2 hone
  rw [List.flatten_singleton, ← hline] at hline'
  constructor
  · rw [connect_map, connect_map, peekInfo_map hline'.symm]
  · intro c hc
    have hmap := connect_map parse options reads secured
    rw [hc] at hmap
    cases hinfo : (peekInfo parse reads).map Prod.fst with
    | error err =>
        rw [hinfo] at hmap
        cases hmap
    | ok info =>
        rw [hinfo] at hmap
        cases hcheck : checkOptions info options with
        | error err =>
            simp only [hcheck] at hmap
            cases hmap
        | ok u =>
            cases u
            simp only [hcheck, Except.map, Except.ok.injEq, Prod.mk.injEq] at hmap
            obtain ⟨hi, hencrypted⟩ := hmap
            have hiff : c.encrypted = true ↔ options.tls.handshakeFirst = true ∨
                c.info.tlsRequired = some true ∨
                (c.info.tlsAvailable = some true ∧ options.tls ≠ .null) := by
              rw [hencrypted, hi, decide_eq_true_iff]
            obtain ⟨hecho, htls⟩ := checkOptions_eq_ok hcheck
            rw [← hi] at hecho htls
            refine ⟨fun hplain => ?_, hiff, fun first hgiven => ?_, hecho⟩
            · -- without an upgrade the bytes behind the line are the first frame
              obtain ⟨raw, rest, hcollected, hframes⟩ := frames_of_plain hc hplain
              rw [hframes, List.flatten_cons, List.flatten_filter_ne_nil]
              exact ((peekInfo_exact reads).1 raw rest hcollected).2 h
            · refine hiff.2 (Or.inr ((htls first hgiven).imp id fun hav => ⟨hav, ?_⟩))
              rw [hgiven]
              exact Tls.noConfusion

theorem connect_exact_two_reads :
    (connect (fun _ => some ⟨some 1, none, none⟩) ⟨true, .missing⟩
        [encode "INFO {}\r\nPI", encode "NG\r\n"] []).map (fun c => (c.info, c.encrypted)) =
      (connect (fun _ => some ⟨some 1, none, none⟩) ⟨true, .missing⟩
        [[encode "INFO {}\r\nPI", encode "NG\r\n"].flatten] []).map
        (fun c => (c.info, c.encrypted)) :=
  (connect_exact (fun _ => some ⟨some 1, none, none⟩) ⟨true, .missing⟩
    [encode "INFO {}\r\nPI", encode "NG\r\n"] [] (by decide)).1

end

end NatsClient.Deno
