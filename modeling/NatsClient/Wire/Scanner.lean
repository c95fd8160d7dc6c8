import NatsClient.Wire.Parser

/-!
# The byte-at-a-time scanner

An abstract parser for the server's side of the protocol. Its state says what has been read of the
current operation: a position in its keyword, the argument bytes so far, or the payload bytes so
far. It knows no chunks, no indices and no buffers, so splitting the input cannot matter
(`scan_append`). It is partial: it stops (`none`) on bytes outside the operations a server sends,
and on an argument or payload of `2 ^ 31` bytes or more.
-/

set_option autoImplicit false

namespace NatsClient.Wire

/-- Lengths the parser's buffers are sure to hold, however the input is cut. -/
def bufferLimit : Nat := 2 ^ 31

/-- The argument being read; that of a message carries `0` if the message has headers and `-1` if it
has none. -/
inductive ArgKind where
  | msg (hdr : Int)
  | err
  | info
deriving DecidableEq, Repr

/-- What was read of the current operation. `ended` says that the argument's carriage return was
read. -/
inductive Scan where
  | op (st : State) (hdr : Int)
  | arg (kind : ArgKind) (acc : Bytes) (ended : Bool)
  | payload (ma : MsgArg) (acc : Bytes)
deriving DecidableEq, Repr

/-- Between two operations. -/
def Scan.start : Scan := .op .opStart 0

/-- The argument record of an argument text, where it is well formed. -/
def argsOf (hdr : Int) (arg : Bytes) : Option MsgArg :=
  match processMsgArgs hdr newMsgArg arg with
  | (ma, none) => some ma
  | (_, some _) => none

/-- The first byte of an argument. -/
def scanFirst (kind : ArgKind) (b : UInt8) : Option (Scan × List ParserEvent) :=
  if isSeparator b then none else some (.arg kind [b] false, [])

/-- The end of a word without arguments. -/
def scanWordEnd (st : State) (kind : Kind) (b : UInt8) : Option (Scan × List ParserEvent) :=
  if b = cc '\r' then some (.op st 0, [])
  else if b = cc '\n' then some (.start, [⟨kind, none, none⟩])
  else none

/-- One keyword letter. -/
def scanLetter (c : Char) (next : Scan) (b : UInt8) : Option (Scan × List ParserEvent) :=
  if b = cc c then some (next, []) else none

/-- A byte of a keyword, or of the end of a payload. -/
def scanOp (st : State) (hdr : Int) (b : UInt8) : Option (Scan × List ParserEvent) :=
  match st with
  | .opStart =>
      -- a message without headers has the header size `-1`
      if b = cc 'M' then some (.op .opM (-1), [])
      else if b = cc 'H' then some (.op .opH 0, [])
      else if b = cc 'P' then some (.op .opP 0, [])
      else if b = cc '+' then some (.op .opPlus 0, [])
      else if b = cc '-' then some (.op .opMinus 0, [])
      else if b = cc 'I' then some (.op .opI 0, [])
      else none
  | .opH => scanLetter 'M' (.op .opM hdr) b
  | .opM => scanLetter 'S' (.op .opMs hdr) b
  | .opMs => scanLetter 'G' (.op .opMsg hdr) b
  | .opMsg => scanLetter ' ' (.op .opMsgSpc hdr) b
  | .opMsgSpc => scanFirst (.msg hdr) b
  | .msgEnd =>
      -- all that is in front of the line feed is skipped
      if b = cc '\n' then some (.start, []) else some (.op .msgEnd 0, [])
  | .opPlus => scanLetter 'O' (.op .opPlusO 0) b
  | .opPlusO => scanLetter 'K' (.op .opPlusOk 0) b
  | .opPlusOk => scanWordEnd .opPlusOk .ok b
  | .opMinus => scanLetter 'E' (.op .opMinusE 0) b
  | .opMinusE => scanLetter 'R' (.op .opMinusEr 0) b
  | .opMinusEr => scanLetter 'R' (.op .opMinusErr 0) b
  | .opMinusErr => scanLetter ' ' (.op .opMinusErrSpc 0) b
  | .opMinusErrSpc => scanFirst .err b
  | .opP =>
      if b = cc 'I' then some (.op .opPi 0, [])
      else if b = cc 'O' then some (.op .opPo 0, [])
      else none
  | .opPo => scanLetter 'N' (.op .opPon 0) b
  | .opPon => scanLetter 'G' (.op .opPong 0) b
  | .opPong => scanWordEnd .opPong .pong b
  | .opPi => scanLetter 'N' (.op .opPin 0) b
  | .opPin => scanLetter 'G' (.op .opPing 0) b
  | .opPing => scanWordEnd .opPing .ping b
  | .opI => scanLetter 'N' (.op .opIn 0) b
  | .opIn => scanLetter 'F' (.op .opInf 0) b
  | .opInf => scanLetter 'O' (.op .opInfo 0) b
  | .opInfo => scanLetter ' ' (.op .opInfoSpc 0) b
  | .opInfoSpc => scanFirst .info b
  | .msgArg | .minusErrArg | .infoArg | .msgPayload => none

/-- The line feed behind an argument. -/
def scanArgEnd (kind : ArgKind) (arg : Bytes) : Option (Scan × List ParserEvent) :=
  match kind with
  | .err => some (.start, [⟨.err, none, some arg⟩])
  | .info => some (.start, [⟨.info, none, some arg⟩])
  | .msg hdr =>
      match argsOf hdr arg with
      | some ma => if ma.size < bufferLimit then some (.payload ma [], []) else none
      | none => none

/-- One byte. -/
def scanByte : Scan → UInt8 → Option (Scan × List ParserEvent)
  | .op st hdr, b => scanOp st hdr b
  | .arg kind acc false, b =>
      if b = cc '\r' then some (.arg kind acc true, [])
      else if b = cc '\n' then none
      else if acc.length + 1 < bufferLimit then some (.arg kind (acc ++ [b]) false, [])
      else none
  | .arg kind acc true, b => if b = cc '\n' then scanArgEnd kind acc else none
  | .payload ma acc, b =>
      -- the byte behind a complete payload is dropped, whatever it is
      if ma.size ≤ acc.length then some (.op .msgEnd 0, [⟨.msg, some ma, some acc⟩])
      else some (.payload ma (acc ++ [b]), [])

/-- Any number of bytes: the state behind them and the events on the way. -/
def scan : Scan → Bytes → Option (Scan × List ParserEvent)
  | a, [] => some (a, [])
  | a, b :: bs =>
      match scanByte a b with
      | none => none
      | some (a₁, evs₁) =>
          match scan a₁ bs with
          | none => none
          | some (a₂, evs₂) => some (a₂, evs₁ ++ evs₂)

theorem scan_cons {a a₁ a₂ : Scan} {b : UInt8} {bs : Bytes} {evs₁ evs₂ : List ParserEvent}
    (h₁ : scanByte a b = some (a₁, evs₁)) (h₂ : scan a₁ bs = some (a₂, evs₂)) :
    scan a (b :: bs) = some (a₂, evs₁ ++ evs₂) := by
  simp only [scan, h₁, h₂]

/-- The first byte of a scan that succeeds. -/
theorem scan_cons_inv {a a₂ : Scan} {b : UInt8} {bs : Bytes} {evs : List ParserEvent}
    (h : scan a (b :: bs) = some (a₂, evs)) :
    ∃ a₁ evs₁ evs₂, scanByte a b = some (a₁, evs₁) ∧ scan a₁ bs = some (a₂, evs₂) ∧
      evs = evs₁ ++ evs₂ := by
  simp only [scan] at h
  cases h₁ : scanByte a b with
  | none => rw [h₁] at h; cases h
  | some r =>
      obtain ⟨a₁, evs₁⟩ := r
      rw [h₁] at h
      cases h₂ : scan a₁ bs with
      | none => simp only [h₂] at h; cases h
      | some r =>
          obtain ⟨a₃, evs₂⟩ := r
          simp only [h₂, Option.some.injEq, Prod.mk.injEq] at h
          obtain ⟨rfl, rfl⟩ := h
          exact ⟨a₁, evs₁, evs₂, rfl, h₂, rfl⟩

/-- **Cutting the input changes nothing.** -/
theorem scan_append {a a₁ a₂ : Scan} {xs ys : Bytes} {evs₁ evs₂ : List ParserEvent}
    (h₁ : scan a xs = some (a₁, evs₁)) (h₂ : scan a₁ ys = some (a₂, evs₂)) :
    scan a (xs ++ ys) = some (a₂, evs₁ ++ evs₂) := by
  induction xs generalizing a evs₁ with
  | nil =>
      simp only [scan, Option.some.injEq, Prod.mk.injEq] at h₁
      obtain ⟨rfl, rfl⟩ := h₁
      exact h₂
  | cons b bs ih =>
      obtain ⟨a', evs', evs'', hb, hbs, rfl⟩ := scan_cons_inv h₁
      rw [List.append_assoc]
      exact scan_cons hb (ih hbs)

/-- The first part of a scan that succeeds. -/
theorem scan_append_inv {a a₂ : Scan} {xs ys : Bytes} {evs : List ParserEvent}
    (h : scan a (xs ++ ys) = some (a₂, evs)) :
    ∃ a₁ evs₁ evs₂, scan a xs = some (a₁, evs₁) ∧ scan a₁ ys = some (a₂, evs₂) ∧
      evs = evs₁ ++ evs₂ := by
  induction xs generalizing a evs with
  | nil => exact ⟨a, [], evs, rfl, h, rfl⟩
  | cons b bs ih =>
      obtain ⟨a', evs', evs'', hb, hbs, rfl⟩ := scan_cons_inv h
      obtain ⟨a₁, e₁, e₂, h₁, h₂, rfl⟩ := ih hbs
      exact ⟨a₁, evs' ++ e₁, e₂, scan_cons hb h₁, h₂, (List.append_assoc _ _ _).symm⟩

/-- Payload bytes up to the declared size are collected. -/
theorem scan_payload (ma : MsgArg) (acc xs : Bytes)
    (h : ((acc.length + xs.length : Nat) : Int) ≤ ma.size) :
    scan (.payload ma acc) xs = some (.payload ma (acc ++ xs), []) := by
  induction xs generalizing acc with
  | nil => simp [scan]
  | cons b bs ih =>
      have hopen : ¬ ma.size ≤ (acc.length : Int) := by
        simp only [List.length_cons] at h
        omega
      have hstep : scanByte (.payload ma acc) b = some (.payload ma (acc ++ [b]), []) := by
        simp only [scanByte, if_neg hopen]
      have hrest := ih (acc ++ [b]) (by
        simp only [List.length_append, List.length_cons, List.length_nil] at h ⊢
        omega)
      rw [List.append_assoc] at hrest
      exact scan_cons hstep hrest

/-- Argument bytes are collected. -/
theorem scan_arg {kind : ArgKind} {acc xs : Bytes} (hline : ∀ b ∈ xs, b ≠ cc '\r' ∧ b ≠ cc '\n')
    (hlim : acc.length + xs.length < bufferLimit) :
    scan (.arg kind acc false) xs = some (.arg kind (acc ++ xs) false, []) := by
  induction xs generalizing acc with
  | nil => simp [scan]
  | cons b bs ih =>
      obtain ⟨hcr, hnl⟩ := hline b List.mem_cons_self
      rw [List.length_cons] at hlim
      have hstep : scanByte (.arg kind acc false) b = some (.arg kind (acc ++ [b]) false, []) := by
        simp only [scanByte, if_neg hcr, if_neg hnl]
        rw [if_pos (by omega)]
      have hroom : (acc ++ [b]).length + bs.length < bufferLimit := by
        simp only [List.length_append, List.length_cons, List.length_nil]
        omega
      have hrest := ih (fun c hc => hline c (List.mem_cons_of_mem b hc)) hroom
      rw [List.append_assoc] at hrest
      exact scan_cons hstep hrest

end NatsClient.Wire
