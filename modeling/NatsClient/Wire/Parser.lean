import NatsClient.Foundation.Binary64
import NatsClient.Wire.DenoBuffer

/-!
# The protocol parser

Model of `parser.ts`: the class `Parser` with its 31 states, the argument buffer `argBuf`, the
message buffer `msgBuf`, the start index `as` and the count `drop` of bytes to cut off an argument.
`parseByte` is one turn of the loop of `parse`, `parseLoop` the loop, `parse` one call.

A turn returns the index the loop counter has at its end, since the parser skips over a payload by
assigning to it. The dispatcher is a parameter: it is pushed every event and may throw, and an
exception leaves the parser in the state it has reached.

A JavaScript number is an `Int`; decimal text is read with the rounding of the number format
(`protoParseInt`).
-/

set_option autoImplicit false

namespace NatsClient.Wire

open NatsClient.Foundation

/-- `Kind`. -/
inductive Kind where
  | ok | err | msg | info | ping | pong
deriving DecidableEq, Repr

/-- `MsgArg`. -/
structure MsgArg where
  subject : Bytes
  reply : Option Bytes
  sid : Int
  hdr : Int
  size : Int
deriving DecidableEq, Repr

/-- `newMsgArg()`. -/
def newMsgArg : MsgArg := ⟨[], none, -1, -1, -1⟩

/-- `ParserEvent`. -/
structure ParserEvent where
  kind : Kind
  msg : Option MsgArg
  data : Option Bytes
deriving DecidableEq, Repr

/-- `State`, in the order of the source. -/
inductive State where
  | opStart | opPlus | opPlusO | opPlusOk
  | opMinus | opMinusE | opMinusEr | opMinusErr | opMinusErrSpc | minusErrArg
  | opM | opMs | opMsg | opMsgSpc | msgArg | msgPayload | msgEnd
  | opH
  | opP | opPi | opPin | opPing | opPo | opPon | opPong
  | opI | opIn | opInf | opInfo | opInfoSpc | infoArg
deriving DecidableEq, Repr

/-- `cc`: the code of a character. -/
def cc (c : Char) : UInt8 := UInt8.ofNat c.toNat

/-- Exceptions: an error of the parser with its label and the offending bytes, an error of a
buffer, and whatever a handler behind the dispatcher throws. -/
inductive Exn where
  | parser (label : String) (data : Bytes)
  | buffer (message : String)
  | handler (message : String)
deriving DecidableEq, Repr

/-- `Dispatcher<ParserEvent>`: the state after the push, and the exception it ends with. -/
structure Dispatcher (σ : Type) where
  push : σ → ParserEvent → σ × Option Exn

/-- The fields of the class `Parser`; the dispatcher is passed along. -/
structure Parser where
  state : State
  as : Nat
  drop : Nat
  hdr : Int
  ma : MsgArg
  argBuf : Option DenoBuffer
  msgBuf : Option DenoBuffer

/-- The constructor. `ma` is assigned before it is read. -/
def Parser.new : Parser := ⟨.opStart, 0, 0, 0, newMsgArg, none, none⟩

/-- `fail(data, label)`. -/
def Parser.fail (p : Parser) (data : Bytes) (label : String) : Exn :=
  let name := if label = "" then "parse error" else label
  .parser (name ++ " [" ++ toString p.state.ctorIdx ++ "]") data

/-- `protoParseInt`: `-1` on the empty text and on a text with a character that is no digit. -/
def protoParseInt (a : Bytes) : Int :=
  if a = [] then -1 else digits 0 a
where
  digits (n : Nat) : Bytes → Int
    | [] => n
    | d :: ds =>
        if d < 48 ∨ 57 < d then -1
        else digits (f64 (f64 (n * 10) + (d.toNat - 48))) ds

/-- The bytes that separate arguments. -/
def isSeparator (b : UInt8) : Bool :=
  b = cc ' ' || b = cc '\t' || b = cc '\r' || b = cc '\n'

/-- The loop that splits an argument text: `token` is what was read since `start`, `none` while
`start < 0`. -/
def splitArgs : Option Bytes → Bytes → List Bytes
  | none, [] => []
  | some token, [] => [token]
  | none, b :: bs => if isSeparator b then splitArgs none bs else splitArgs (some [b]) bs
  | some token, b :: bs =>
      if isSeparator b then token :: splitArgs none bs else splitArgs (some (token ++ [b])) bs

/-- The checks at the end of `processHeaderMsgArgs`: the label of the first one that fails. -/
def checkHeaderMsgArgs (ma : MsgArg) : Option String :=
  if ma.sid < 0 then some "processHeaderMsgArgs Bad or Missing Sid Error"
  else if ma.hdr < 0 ∨ ma.hdr > ma.size then
    some "processHeaderMsgArgs Bad or Missing Header Size Error"
  else if ma.size < 0 then some "processHeaderMsgArgs Bad or Missing Size Error"
  else none

/-- `processHeaderMsgArgs`: the argument record after the call, and the label of the error
thrown. -/
def processHeaderMsgArgs (ma : MsgArg) (arg : Bytes) : MsgArg × Option String :=
  let checked (ma : MsgArg) := (ma, checkHeaderMsgArgs ma)
  match splitArgs none arg with
  | [subject, sid, hdr, size] =>
      checked ⟨subject, none, protoParseInt sid, protoParseInt hdr, protoParseInt size⟩
  | [subject, sid, reply, hdr, size] =>
      checked ⟨subject, some reply, protoParseInt sid, protoParseInt hdr, protoParseInt size⟩
  | _ => (ma, some "processHeaderMsgArgs Parse Error")

/-- The checks at the end of `processMsgArgs`. -/
def checkMsgArgs (ma : MsgArg) : Option String :=
  if ma.sid < 0 then some "processMsgArgs Bad or Missing Sid Error"
  else if ma.size < 0 then some "processMsgArgs Bad or Missing Size Error"
  else none

/-- `processMsgArgs`, which goes to `processHeaderMsgArgs` for a message with headers. -/
def processMsgArgs (hdr : Int) (ma : MsgArg) (arg : Bytes) : MsgArg × Option String :=
  let checked (ma : MsgArg) := (ma, checkMsgArgs ma)
  if 0 ≤ hdr then processHeaderMsgArgs ma arg
  else
    match splitArgs none arg with
    | [subject, sid, size] =>
        checked { ma with
          subject := subject, reply := none, sid := protoParseInt sid, size := protoParseInt size }
    | [subject, sid, reply, size] =>
        checked { ma with
          subject := subject, reply := some reply, sid := protoParseInt sid,
          size := protoParseInt size }
    | _ => (ma, some "processMsgArgs Parse Error")

/-- `cloneMsgArg`: subject and reply are copied next to each other into `argBuf`. -/
def Parser.cloneMsgArg (p : Parser) : Parser :=
  let s := p.ma.subject.length
  let buf := p.ma.subject ++ p.ma.reply.getD []
  { p with
    argBuf := some (.new buf)
    ma := { p.ma with
      subject := subarray buf 0 s, reply := p.ma.reply.map fun _ => buf.drop s } }

section Loop

variable {σ : Type} (d : Dispatcher σ)

/-- How a turn of the loop ends: with the loop counter `i`, before its increment, or with an
exception. -/
inductive Turn (σ : Type) where
  | next (p : Parser) (s : σ) (i : Nat)
  | throw (p : Parser) (s : σ) (e : Exn)

/-- `this.dispatcher.push(e)`, then the rest of the turn. -/
def push (p : Parser) (s : σ) (e : ParserEvent) (rest : σ → Turn σ) : Turn σ :=
  match d.push s e with
  | (s', none) => rest s'
  | (s', some exn) => .throw p s' exn

/-- A write to a buffer, then the rest of the turn. -/
def wrote (p : Parser) (s : σ) (w : Except String DenoBuffer) (rest : DenoBuffer → Turn σ) :
    Turn σ :=
  match w with
  | .ok b => rest b
  | .error e => .throw p s (.buffer e)

/-- The turn of a state that waits for one letter, in upper or lower case. -/
def letter (p : Parser) (s : σ) (buf : Bytes) (i : Nat) (upper lower : Char) (next : State)
    (b : UInt8) : Turn σ :=
  if b = cc upper ∨ b = cc lower then .next { p with state := next } s i
  else .throw p s (p.fail (buf.drop i) "")

/-- The turn of a state that waits for the blanks in front of an argument. -/
def blank (p : Parser) (s : σ) (buf : Bytes) (i : Nat) (next : State) (b : UInt8) : Turn σ :=
  if b = cc ' ' ∨ b = cc '\t' then .next { p with state := next } s i
  else .throw p s (p.fail (buf.drop i) "")

/-- The turn of a state that skips further blanks; any other byte starts the argument. -/
def blanks (p : Parser) (s : σ) (i : Nat) (next : State) (b : UInt8) : Turn σ :=
  if b = cc ' ' ∨ b = cc '\t' then .next p s i
  else .next { p with state := next, as := i } s i

/-- The turn of a state whose word is complete: a line feed pushes the event. -/
def endOfWord (p : Parser) (s : σ) (i : Nat) (kind : Kind) (b : UInt8) : Turn σ :=
  if b = cc '\n' then
    push d p s ⟨kind, none, none⟩ fun s => .next { p with drop := 0, state := .opStart } s i
  else .next p s i

/-- The turn inside an argument, `atEnd` being what a line feed does with the argument. -/
def argument (p : Parser) (s : σ) (i : Nat) (b : UInt8) (atEnd : Turn σ) : Turn σ :=
  if b = cc '\r' then .next { p with drop := 1 } s i
  else if b = cc '\n' then atEnd
  else
    match p.argBuf with
    | some a => wrote p s (a.writeByte b) fun a => .next { p with argBuf := some a } s i
    | none => .next p s i

/-- The argument read so far when a line feed ends it at index `i`. -/
def Parser.argumentBytes (p : Parser) (buf : Bytes) (i : Nat) : Bytes :=
  match p.argBuf with
  | some a => a.bytes
  | none => subarray buf p.as (i - p.drop)

/-- A line feed at the end of the argument of an `INFO` or `-ERR`. -/
def endOfLine (p : Parser) (s : σ) (buf : Bytes) (i : Nat) (kind : Kind) : Turn σ :=
  push d { p with argBuf := none } s ⟨kind, none, some (p.argumentBytes buf i)⟩ fun s =>
    .next { p with argBuf := none, drop := 0, as := i + 1, state := .opStart } s i

/-- The turn of `MSG_PAYLOAD`. -/
def payload (p : Parser) (s : σ) (buf : Bytes) (i : Nat) (b : UInt8) : Turn σ :=
  let complete (data : Bytes) : Turn σ :=
    push d p s ⟨.msg, some p.ma, some data⟩ fun s =>
      .next { p with argBuf := none, msgBuf := none, state := .msgEnd } s i
  match p.msgBuf with
  -- a payload that began in an earlier chunk is copied
  | some m =>
      if p.ma.size ≤ m.length then complete m.bytes
      else
        let toCopy := min (p.ma.size - m.length).toNat (buf.length - i)
        if 0 < toCopy then
          wrote p s (m.write (subarray buf i (i + toCopy))) fun m =>
            .next { p with msgBuf := some m } s (i + toCopy - 1)
        else wrote p s (m.writeByte b) fun m => .next { p with msgBuf := some m } s i
  -- a payload within one chunk is a view of it
  | none =>
      if p.ma.size ≤ (i : Int) - p.as then complete (subarray buf p.as i) else .next p s i

/-- One turn of the loop of `parse` at the index `i`, whose byte is `b`. -/
def parseByte (p : Parser) (s : σ) (buf : Bytes) (i : Nat) (b : UInt8) : Turn σ :=
  match p.state with
  | .opStart =>
      if b = cc 'M' ∨ b = cc 'm' then
        .next { p with state := .opM, hdr := -1, ma := newMsgArg } s i
      else if b = cc 'H' ∨ b = cc 'h' then
        .next { p with state := .opH, hdr := 0, ma := newMsgArg } s i
      else if b = cc 'P' ∨ b = cc 'p' then .next { p with state := .opP } s i
      else if b = cc '+' then .next { p with state := .opPlus } s i
      else if b = cc '-' then .next { p with state := .opMinus } s i
      else if b = cc 'I' ∨ b = cc 'i' then .next { p with state := .opI } s i
      else .throw p s (p.fail (buf.drop i) "")
  | .opH => letter p s buf i 'M' 'm' .opM b
  | .opM => letter p s buf i 'S' 's' .opMs b
  | .opMs => letter p s buf i 'G' 'g' .opMsg b
  | .opMsg => blank p s buf i .opMsgSpc b
  | .opMsgSpc => blanks p s i .msgArg b
  | .msgArg =>
      argument p s i b
        (let arg := p.argumentBytes buf i
        match processMsgArgs p.hdr p.ma arg with
        | (ma, some label) => .throw { p with ma := ma } s (p.fail arg label)
        | (ma, none) =>
            -- the index jumps over the payload; a payload that is cut is read from `msgBuf`
            .next { p with ma := ma, drop := 0, as := i + 1, state := .msgPayload } s
              (i + 1 + ma.size.toNat - 1))
  | .msgPayload => payload d p s buf i b
  | .msgEnd =>
      if b = cc '\n' then .next { p with drop := 0, as := i + 1, state := .opStart } s i
      else .next p s i
  | .opPlus => letter p s buf i 'O' 'o' .opPlusO b
  | .opPlusO => letter p s buf i 'K' 'k' .opPlusOk b
  | .opPlusOk => endOfWord d p s i .ok b
  | .opMinus => letter p s buf i 'E' 'e' .opMinusE b
  | .opMinusE => letter p s buf i 'R' 'r' .opMinusEr b
  | .opMinusEr => letter p s buf i 'R' 'r' .opMinusErr b
  | .opMinusErr => blank p s buf i .opMinusErrSpc b
  | .opMinusErrSpc => blanks p s i .minusErrArg b
  | .minusErrArg => argument p s i b (endOfLine d p s buf i .err)
  | .opP =>
      if b = cc 'I' ∨ b = cc 'i' then .next { p with state := .opPi } s i
      else letter p s buf i 'O' 'o' .opPo b
  | .opPo => letter p s buf i 'N' 'n' .opPon b
  | .opPon => letter p s buf i 'G' 'g' .opPong b
  | .opPong => endOfWord d p s i .pong b
  | .opPi => letter p s buf i 'N' 'n' .opPin b
  | .opPin => letter p s buf i 'G' 'g' .opPing b
  | .opPing => endOfWord d p s i .ping b
  | .opI => letter p s buf i 'N' 'n' .opIn b
  | .opIn => letter p s buf i 'F' 'f' .opInf b
  | .opInf => letter p s buf i 'O' 'o' .opInfo b
  | .opInfo => blank p s buf i .opInfoSpc b
  | .opInfoSpc => blanks p s i .infoArg b
  | .infoArg => argument p s i b (endOfLine d p s buf i .info)

/-- The loop of `parse`. A turn never lowers the index, so `buf.length` turns are enough. -/
def parseLoop (buf : Bytes) : Nat → Parser → σ → Nat → Turn σ
  | 0, p, s, i => .next p s i
  | fuel + 1, p, s, i =>
      match buf[i]? with
      | none => .next p s i
      | some b =>
          match parseByte d p s buf i b with
          | .next p s i => parseLoop buf fuel p s (i + 1)
          | .throw p s e => .throw p s e

/-- What `parse` does when the loop has run out of bytes with the counter at `i`: the part of an
argument or of a payload that is in this chunk is copied. -/
def Parser.endOfChunk (p : Parser) (buf : Bytes) (i : Nat) : Parser :=
  let p :=
    if (p.state = .msgArg ∨ p.state = .minusErrArg ∨ p.state = .infoArg) ∧ p.argBuf.isNone then
      { p with argBuf := some (.new (subarray buf p.as (i - p.drop))) }
    else p
  if p.state = .msgPayload ∧ p.msgBuf.isNone then
    let p := if p.argBuf.isNone then p.cloneMsgArg else p
    { p with msgBuf := some (.new (buf.drop p.as)) }
  else p

/-- How a call of `parse` ends. -/
inductive Parsed (σ : Type) where
  | ok (p : Parser) (s : σ)
  | throw (p : Parser) (s : σ) (e : Exn)

/-- `parse(buf)`. -/
def parse (p : Parser) (s : σ) (buf : Bytes) : Parsed σ :=
  match parseLoop d buf buf.length p s 0 with
  | .next p s i => .ok (p.endOfChunk buf i) s
  | .throw p s e => .throw p s e

/-- Successive calls of `parse` on one parser. -/
def parseAll : Parser → σ → List Bytes → Parsed σ
  | p, s, [] => .ok p s
  | p, s, buf :: bufs =>
      match parse d p s buf with
      | .ok p s => parseAll p s bufs
      | .throw p s e => .throw p s e

end Loop

/-- The dispatcher that keeps the events it is pushed. -/
def collect : Dispatcher (List ParserEvent) where
  push s e := (s ++ [e], none)

/-! ## What a turn pushes -/

section Pushed

variable {σ : Type} {d : Dispatcher σ} {p : Parser} {s : σ} {buf : Bytes} {i : Nat} {b : UInt8}

/-- The state of what is pushed to, behind a turn. -/
def Turn.pushed : Turn σ → σ
  | .next _ s _ | .throw _ s _ => s

/-- In the turn nothing is pushed, or one event. -/
def Pushes (d : Dispatcher σ) (s : σ) (t : Turn σ) : Prop :=
  t.pushed = s ∨ ∃ e, t.pushed = (d.push s e).1

theorem pushed_push {e : ParserEvent} {rest : σ → Turn σ} (hrest : ∀ s', (rest s').pushed = s') :
    Pushes d s (push d p s e rest) := by
  right
  refine ⟨e, ?_⟩
  rw [push]
  cases hpush : d.push s e with
  | mk s' exn =>
      cases exn with
      | none => exact hrest s'
      | some exn => rfl

theorem pushed_wrote {w : Except String DenoBuffer} {rest : DenoBuffer → Turn σ}
    (hrest : ∀ a, (rest a).pushed = s) : (wrote p s w rest).pushed = s := by
  cases w with
  | ok a => exact hrest a
  | error e => rfl

theorem pushed_letter (upper lower : Char) (next : State) :
    (letter p s buf i upper lower next b).pushed = s := by
  rw [letter]
  split <;> rfl

theorem pushed_blank (next : State) : (blank p s buf i next b).pushed = s := by
  rw [blank]
  split <;> rfl

theorem pushed_blanks (next : State) : (blanks p s i next b).pushed = s := by
  rw [blanks]
  split <;> rfl

theorem pushes_endOfWord (kind : Kind) : Pushes d s (endOfWord d p s i kind b) := by
  rw [endOfWord]
  split
  · exact pushed_push fun _ => rfl
  · exact .inl rfl

theorem pushes_argument {atEnd : Turn σ} (hend : Pushes d s atEnd) :
    Pushes d s (argument p s i b atEnd) := by
  rw [argument]
  split
  · exact .inl rfl
  · split
    · exact hend
    · split
      · exact .inl (pushed_wrote fun _ => rfl)
      · exact .inl rfl

theorem pushes_endOfLine (kind : Kind) : Pushes d s (endOfLine d p s buf i kind) :=
  pushed_push fun _ => rfl

theorem pushes_payload : Pushes d s (payload d p s buf i b) := by
  unfold payload
  simp only
  split
  · split
    · exact pushed_push fun _ => rfl
    · split
      · exact .inl (pushed_wrote fun _ => rfl)
      · exact .inl (pushed_wrote fun _ => rfl)
  · split
    · exact pushed_push fun _ => rfl
    · exact .inl rfl

/-- **A turn pushes one event at most.** -/
theorem pushes_parseByte (d : Dispatcher σ) (p : Parser) (s : σ) (buf : Bytes) (i : Nat)
    (b : UInt8) : Pushes d s (parseByte d p s buf i b) := by
  cases hst : p.state with
  | opStart =>
      simp only [parseByte, hst]
      repeat' split
      all_goals exact .inl rfl
  | opP =>
      simp only [parseByte, hst]
      split
      · exact .inl rfl
      · exact .inl (pushed_letter _ _ _)
  | opH | opM | opMs | opPlus | opPlusO | opMinus | opMinusE | opMinusEr | opPo | opPon | opPi
  | opPin | opI | opIn | opInf =>
      simp only [parseByte, hst]
      exact .inl (pushed_letter _ _ _)
  | opMsg | opMinusErr | opInfo =>
      simp only [parseByte, hst]
      exact .inl (pushed_blank _)
  | opMsgSpc | opMinusErrSpc | opInfoSpc =>
      simp only [parseByte, hst]
      exact .inl (pushed_blanks _)
  | opPlusOk | opPong | opPing =>
      simp only [parseByte, hst]
      exact pushes_endOfWord _
  | minusErrArg | infoArg =>
      simp only [parseByte, hst]
      exact pushes_argument (pushes_endOfLine _)
  | msgArg =>
      simp only [parseByte, hst]
      refine pushes_argument ?_
      split <;> exact .inl rfl
  | msgPayload =>
      simp only [parseByte, hst]
      exact pushes_payload
  | msgEnd =>
      simp only [parseByte, hst]
      split <;> exact .inl rfl

/-! ### What is kept -/

/-- The state of what is pushed to, behind a call of `parse`. -/
def Parsed.pushed : Parsed σ → σ
  | .ok _ s | .throw _ s _ => s

variable {I : σ → Prop}

theorem parseLoop_invariant (hpush : ∀ s e, I s → I (d.push s e).1) (fuel : Nat)
    (p : Parser) (i : Nat) (hs : I s) : I (parseLoop d buf fuel p s i).pushed := by
  induction fuel generalizing p s i with
  | zero => exact hs
  | succ fuel ih =>
      rw [parseLoop]
      split
      · exact hs
      · next b hb =>
        have hturn : I (parseByte d p s buf i b).pushed := by
          rcases pushes_parseByte d p s buf i b with heq | ⟨e, heq⟩
          · rw [heq]
            exact hs
          · rw [heq]
            exact hpush s e hs
        split
        · next p' s' i' hparsed =>
          rw [hparsed] at hturn
          exact ih p' (i' + 1) hturn
        · next p' s' e hparsed =>
          rw [hparsed] at hturn
          exact hturn

/-- **What every push keeps**, a call of `parse` keeps, with or without an exception. -/
theorem parse_invariant (hpush : ∀ s e, I s → I (d.push s e).1) (p : Parser) (buf : Bytes)
    (hs : I s) : I (parse d p s buf).pushed := by
  have hloop : I (parseLoop d buf buf.length p s 0).pushed :=
    parseLoop_invariant hpush buf.length p 0 hs
  rw [parse]
  split
  · next p' s' i hparsed =>
    rw [hparsed] at hloop
    exact hloop
  · next p' s' e hparsed =>
    rw [hparsed] at hloop
    exact hloop

end Pushed

end NatsClient.Wire
