import NatsClient.Wire.Publish
import NatsClient.Wire.RoundTrip

/-!
# From a publish to a message

A publish goes to the server as a `PUB` or `HPUB` frame and comes back as the `MSG` or `HMSG` frame
of a subscription. The server reads the fields of the frame (`readPub`) and passes them on unchanged
(`PubFrame.relay`); the client parses the message and wraps it (`MsgImpl`, `msg.ts`).

* `readPub_publish`: the frame of a publish is read as its fields;
* `parse_wire`: one call of `parse` reads a message of any size;
* `relay_publish`: the message has the subject, the reply, the data and the headers of the publish,
  and the headers can be compared unless a key has more values than a call takes.
-/

set_option autoImplicit false

namespace NatsClient.Wire

open NatsClient.Foundation

/-! ## A message in one chunk -/

/-- `n` turns of the loop lead from one parser, state and index to others. -/
def Turns (buf : Bytes) (n : Nat) (p : Parser) (s : List ParserEvent) (i : Nat) (p' : Parser)
    (s' : List ParserEvent) (i' : Nat) : Prop :=
  ∀ fuel, parseLoop collect buf (fuel + n) p s i = parseLoop collect buf fuel p' s' i'

section

variable {buf pre post arg data : Bytes} {b : UInt8} {p p' p'' : Parser}
  {s s' s'' : List ParserEvent} {i i' i'' n n' : Nat} {ma : MsgArg}

theorem length_snoc (xs : Bytes) (b : UInt8) : (xs ++ [b]).length = xs.length + 1 :=
  List.length_append

theorem Turns.trans (h : Turns buf n p s i p' s' i') (h' : Turns buf n' p' s' i' p'' s'' i'') :
    Turns buf (n' + n) p s i p'' s'' i'' := by
  intro fuel
  rw [← Nat.add_assoc, h, h']

/-- One turn, at the byte behind `pre`. -/
theorem turns_one (hbuf : buf = pre ++ b :: post)
    (hturn : parseByte collect p s buf pre.length b = .next p' s' i') :
    Turns buf 1 p s pre.length p' s' (i' + 1) := by
  intro fuel
  have hget : buf[pre.length]? = some b := by
    rw [hbuf, List.getElem?_append_right (Nat.le_refl _), Nat.sub_self, List.getElem?_cons_zero]
  simp only [parseLoop, hget, hturn]

/-- The bytes of an argument leave the parser as it is. -/
theorem turns_arg (hbuf : buf = pre ++ (arg ++ post)) (hst : p.state = .msgArg)
    (hnone : p.argBuf = none) (harg : ∀ b ∈ arg, b ≠ cc '\r' ∧ b ≠ cc '\n') :
    Turns buf arg.length p s pre.length p s (pre ++ arg).length := by
  induction arg generalizing pre with
  | nil =>
      intro fuel
      rw [List.append_nil]
      rfl
  | cons b arg ih =>
      obtain ⟨hcr, hlf⟩ := harg b List.mem_cons_self
      have hturn : parseByte collect p s buf pre.length b = .next p s pre.length := by
        simp only [parseByte, hst, argument, if_neg hcr, if_neg hlf, hnone]
      have hone : Turns buf 1 p s pre.length p s (pre ++ [b]).length := by
        rw [length_snoc]
        exact turns_one hbuf hturn
      have hsplit : buf = pre ++ [b] ++ (arg ++ post) := by
        rw [hbuf, List.append_assoc]
        rfl
      have hrest := ih hsplit fun b' hb' => harg b' (List.mem_cons_of_mem b hb')
      rw [List.append_assoc] at hrest
      exact hone.trans hrest

/-- The first byte behind the blanks starts the argument. -/
theorem turns_argument (hbuf : buf = pre ++ (arg ++ post)) (hst : p.state = .opMsgSpc)
    (hnone : p.argBuf = none) (hline : ServerOp.IsLine arg) :
    Turns buf arg.length p s pre.length { p with state := .msgArg, as := pre.length } s
      (pre ++ arg).length := by
  obtain ⟨hhead, hne, hbytes⟩ := hline
  obtain ⟨b, bs, rfl⟩ := List.exists_cons_of_ne_nil hne
  have hblank : ¬ (b = cc ' ' ∨ b = cc '\t') := by
    have hsep := hhead b rfl
    rintro (rfl | rfl)
    · exact absurd hsep (by decide)
    · exact absurd hsep (by decide)
  have hone : Turns buf 1 p s pre.length { p with state := .msgArg, as := pre.length } s
      (pre ++ [b]).length := by
    rw [List.length_append]
    apply turns_one hbuf
    simp only [parseByte, hst, blanks, if_neg hblank]
  have hrest : Turns buf bs.length { p with state := .msgArg, as := pre.length } s
      (pre ++ [b]).length { p with state := .msgArg, as := pre.length } s
      (pre ++ [b] ++ bs).length :=
    turns_arg (by rw [hbuf, List.append_assoc]; rfl) rfl hnone
      fun b' hb' => hbytes b' (List.mem_cons_of_mem b hb')
  rw [List.append_assoc] at hrest
  exact hone.trans hrest

/-- The end of the argument line; the index jumps over the payload. -/
theorem turns_line (hbuf : buf = pre ++ (arg ++ crlf ++ post)) (hst : p.state = .msgArg)
    (hnone : p.argBuf = none) (has : p.as = pre.length) (hma : p.ma = newMsgArg)
    (hargs : argsOf p.hdr arg = some ma) :
    Turns buf 2 p s (pre ++ arg).length
      { p with ma := ma, drop := 0, as := (pre ++ arg ++ crlf).length, state := .msgPayload } s
      ((pre ++ arg ++ crlf).length + ma.size.toNat) := by
  have hcr : Turns buf 1 p s (pre ++ arg).length { p with drop := 1 } s
      (pre ++ arg ++ [cc '\r']).length := by
    have hsplit : buf = (pre ++ arg) ++ cc '\r' :: (cc '\n' :: post) := by
      rw [hbuf]
      simp [crlf]
    rw [length_snoc]
    apply turns_one hsplit
    simp only [parseByte, hst, argument, if_true]
  -- the argument is what is in front of the carriage return
  have hbytes : subarray buf pre.length ((pre ++ arg ++ [cc '\r']).length - 1) = arg := by
    have hend : (pre ++ arg ++ [cc '\r']).length - 1 = (pre ++ arg).length := by
      rw [length_snoc, Nat.add_sub_cancel]
    rw [hend, hbuf, subarray, List.append_assoc arg, ← List.append_assoc pre, List.take_left,
      List.drop_left]
  have hlf : Turns buf 1 { p with drop := 1 } s (pre ++ arg ++ [cc '\r']).length
      { p with
        ma := ma
        drop := 0
        as := (pre ++ arg ++ [cc '\r']).length + 1
        state := .msgPayload }
      s ((pre ++ arg ++ [cc '\r']).length + 1 + ma.size.toNat - 1 + 1) := by
    have hsplit : buf = (pre ++ arg ++ [cc '\r']) ++ cc '\n' :: post := by
      rw [hbuf]
      simp [crlf]
    apply turns_one hsplit
    rw [parseByte, hst]
    simp only [argument, Parser.argumentBytes, hnone, has, hma, hbytes, argsOf_eq_some hargs]
    rw [if_neg (by decide), if_pos trivial]
  have hlen : (pre ++ arg ++ crlf).length = (pre ++ arg ++ [cc '\r']).length + 1 := by
    rw [length_snoc]
    simp only [crlf, List.length_append, List.length_cons, List.length_nil]
  rw [hlen]
  -- the loop takes one off the jump, and adds it again
  have hjump : (pre ++ arg ++ [cc '\r']).length + 1 + ma.size.toNat - 1 + 1 =
      (pre ++ arg ++ [cc '\r']).length + 1 + ma.size.toNat := by omega
  rw [hjump] at hlf
  exact hcr.trans hlf

/-- The end of a payload that lies in the chunk. -/
theorem turns_payload (hbuf : buf = pre ++ (data ++ crlf)) (hst : p.state = .msgPayload)
    (hnone : p.msgBuf = none) (has : p.as = pre.length) (hsize : p.ma.size = data.length) :
    Turns buf 2 p s (pre ++ data).length
      { p with
        argBuf := none, msgBuf := none, drop := 0, as := buf.length, state := .opStart }
      (s ++ [⟨.msg, some p.ma, some data⟩]) buf.length := by
  have hdata : subarray buf pre.length (pre ++ data).length = data := by
    rw [hbuf, subarray, ← List.append_assoc, List.take_left, List.drop_left]
  have hfull : p.ma.size ≤ ((pre ++ data).length : Int) - (pre.length : Int) := by
    rw [hsize, List.length_append]
    omega
  have hcr : Turns buf 1 p s (pre ++ data).length
      { p with argBuf := none, msgBuf := none, state := .msgEnd }
      (s ++ [⟨.msg, some p.ma, some data⟩]) (pre ++ data ++ [cc '\r']).length := by
    have hsplit : buf = (pre ++ data) ++ cc '\r' :: [cc '\n'] := by
      rw [hbuf]
      simp [crlf]
    rw [length_snoc]
    apply turns_one hsplit
    simp only [parseByte, hst, payload, hnone, has, if_pos hfull, hdata, push, collect]
  have hlen : buf.length = (pre ++ data ++ [cc '\r']).length + 1 := by
    rw [hbuf]
    simp only [crlf, List.length_append, List.length_cons, List.length_nil]
    omega
  have hlf : Turns buf 1 { p with argBuf := none, msgBuf := none, state := .msgEnd }
      (s ++ [⟨.msg, some p.ma, some data⟩]) (pre ++ data ++ [cc '\r']).length
      { p with
        argBuf := none, msgBuf := none, drop := 0, as := buf.length, state := .opStart }
      (s ++ [⟨.msg, some p.ma, some data⟩]) buf.length := by
    rw [hlen]
    have hsplit : buf = (pre ++ data ++ [cc '\r']) ++ cc '\n' :: [] := by
      rw [hbuf]
      simp [crlf]
    apply turns_one hsplit
    simp only [parseByte, if_true]
  exact hcr.trans hlf

/-- **A message behind its keyword**, in the chunk of the keyword. -/
theorem parse_message {key : Bytes} {hdr : Int}
    (hkey : ∀ rest, Turns (key ++ rest) key.length .new s 0
      { Parser.new with state := .opMsgSpc, hdr := hdr, ma := newMsgArg } s key.length)
    (hline : ServerOp.IsLine arg) (hargs : argsOf hdr arg = some ma)
    (hsize : ma.size = data.length) :
    ∃ p, parse collect .new s (key ++ (arg ++ crlf ++ (data ++ crlf))) =
        .ok p (s ++ [⟨.msg, some ma, some data⟩]) ∧
      p.state = .opStart ∧ p.argBuf = none ∧ p.msgBuf = none := by
  obtain ⟨buf, hbuf⟩ : ∃ buf, buf = key ++ (arg ++ crlf ++ (data ++ crlf)) := ⟨_, rfl⟩
  have hkeyword := hkey (arg ++ crlf ++ (data ++ crlf))
  rw [← hbuf] at hkeyword
  have hargument := hkeyword.trans
    (turns_argument (by rw [hbuf, List.append_assoc]) rfl rfl hline)
  have hend := hargument.trans
    (turns_line hbuf rfl rfl rfl rfl hargs)
  have hjump : (key ++ arg ++ crlf).length + ma.size.toNat =
      (key ++ arg ++ crlf ++ data).length := by
    rw [hsize, Int.toNat_natCast, ← List.length_append]
  rw [hjump] at hend
  have hsplit : buf = key ++ arg ++ crlf ++ (data ++ crlf) := by
    rw [hbuf]
    simp only [List.append_assoc]
  have hall := hend.trans (turns_payload hsplit rfl rfl rfl hsize)
  -- the payload was jumped over, so turns are left
  have hlen : buf.length = data.length + (2 + (2 + (arg.length + key.length))) := by
    rw [hbuf]
    simp only [crlf, List.length_append, List.length_cons, List.length_nil]
    omega
  have hloop := hall data.length
  rw [← hlen] at hloop
  have hstop : ∀ (fuel : Nat) (p : Parser) (s : List ParserEvent),
      parseLoop collect buf fuel p s buf.length = .next p s buf.length := by
    intro fuel p s
    cases fuel with
    | zero => rfl
    | succ fuel => simp only [parseLoop, List.getElem?_eq_none (Nat.le_refl _)]
  rw [hstop] at hloop
  rw [← hbuf, parse, hloop]
  exact ⟨_, rfl, rfl, rfl, rfl⟩

end

/-- The sizes of a message that one call can handle: its numbers are exact. -/
def ServerOp.Exact (op : ServerOp) : Prop := op.sid ≤ 2 ^ 53 ∧ op.data.length ≤ 2 ^ 53

/-- **One call of `parse` reads a message of any size.** -/
theorem parse_msg {subject data : Bytes} {sid : Nat} {reply : Option Bytes}
    (hop : (ServerOp.msg subject sid reply data).WellFormed)
    (hexact : (ServerOp.msg subject sid reply data).Exact) :
    ∃ p, parse collect .new [] (ServerOp.msg subject sid reply data).wire =
        .ok p [(ServerOp.msg subject sid reply data).event] ∧
      p.state = .opStart ∧ p.argBuf = none ∧ p.msgBuf = none := by
  have hnames := isName_of_mem_messageArgs sid [data.length] hop.1 hop.2
  have hargs := argsOf_msg (splitArgs_joinArgs hnames) hexact.1 hexact.2
  have hkey : ∀ rest, Turns (word ['M', 'S', 'G', ' '] ++ rest) 4 .new [] 0
      { Parser.new with state := .opMsgSpc, hdr := -1, ma := newMsgArg } [] 4 := fun _ _ => rfl
  have hparse := parse_message hkey (isLine_joinArgs (List.cons_ne_nil _ _) hnames) hargs
    (show ((data.length : Nat) : Int) = data.length from rfl)
  simpa [ServerOp.wire, ServerOp.argText, ServerOp.event, messageArgs] using hparse

/-- The same with headers. -/
theorem parse_hmsg {subject data : Bytes} {sid hdr : Nat} {reply : Option Bytes}
    (hop : (ServerOp.hmsg subject sid reply hdr data).WellFormed)
    (hexact : (ServerOp.hmsg subject sid reply hdr data).Exact) :
    ∃ p, parse collect .new [] (ServerOp.hmsg subject sid reply hdr data).wire =
        .ok p [(ServerOp.hmsg subject sid reply hdr data).event] ∧
      p.state = .opStart ∧ p.argBuf = none ∧ p.msgBuf = none := by
  have hnames := isName_of_mem_messageArgs sid [hdr, data.length] hop.1 hop.2.1
  have hargs := argsOf_hmsg (splitArgs_joinArgs hnames) hexact.1 hop.2.2 hexact.2
  have hkey : ∀ rest, Turns (word ['H', 'M', 'S', 'G', ' '] ++ rest) 5 .new [] 0
      { Parser.new with state := .opMsgSpc, hdr := 0, ma := newMsgArg } [] 5 := fun _ _ => rfl
  have hparse := parse_message hkey (isLine_joinArgs (List.cons_ne_nil _ _) hnames) hargs
    (show ((data.length : Nat) : Int) = data.length from rfl)
  simpa [ServerOp.wire, ServerOp.argText, ServerOp.event, messageArgs] using hparse

/-! ## The message -/

/-- The fields of `MsgImpl` it is made with. -/
structure MsgImpl where
  msg : MsgArg
  rdata : Bytes
deriving DecidableEq, Repr

namespace MsgImpl

/-- `new MsgImpl(msg, data, ..)` for an event of kind `MSG`. -/
def ofEvent (e : ParserEvent) : Option MsgImpl :=
  match e.msg, e.data with
  | some msg, some data => some ⟨msg, data⟩
  | _, _ => none

/-- `subject`. -/
def subject (m : MsgImpl) : String := decode m.msg.subject

/-- `reply`: decoding nothing gives the empty text. -/
def reply (m : MsgImpl) : String :=
  match m.msg.reply with
  | some reply => decode reply
  | none => ""

/-- `headers`; reading them may throw. -/
def headers [Engine] (m : MsgImpl) : Option (Except HeaderError MsgHdrs) :=
  if -1 < m.msg.hdr then some (MsgHdrs.decode (m.rdata.take m.msg.hdr.toNat)) else none

/-- `data`. -/
def data (m : MsgImpl) : Bytes :=
  if -1 < m.msg.hdr then m.rdata.drop m.msg.hdr.toNat else m.rdata

end MsgImpl

/-! ## The server -/

/-- A publish as the server reads it: `hdr` is the size of the headers, which are in front of the
data. -/
structure PubFrame where
  subject : Bytes
  reply : Option Bytes
  hdr : Option Nat
  data : Bytes
deriving DecidableEq, Repr

/-- The bytes in front of the first end of line and those behind it. -/
def readLine : Bytes → Option (Bytes × Bytes)
  | [] => none
  | b :: bs =>
      if b = cc '\r' then if bs.head? = some (cc '\n') then some ([], bs.tail) else none
      else (readLine bs).map fun (line, rest) => (b :: line, rest)

/-- One digit or more, and nothing else. -/
def IsDigits (bs : Bytes) : Prop := bs ≠ [] ∧ ∀ b ∈ bs, 48 ≤ b ∧ b ≤ 57

instance (bs : Bytes) : Decidable (IsDigits bs) := @instDecidableAnd _ _ _ (List.decidableBAll _ bs)

/-- A decimal number. -/
def readNumber (bs : Bytes) : Option Nat :=
  if IsDigits bs then
    some (Nat.ofDigitChars 10 (bs.map fun b => Char.ofNat b.toNat) 0)
  else none

/-- `size` bytes with an end of line behind them, and nothing else. -/
def readBody (size : Nat) (bs : Bytes) : Option Bytes :=
  if bs.drop size = crlf then some (bs.take size) else none

/-- A frame without headers, `rest` being what is behind its line. -/
def readPlain (rest subject : Bytes) (reply : Option Bytes) (size : Bytes) : Option PubFrame :=
  (readNumber size).bind fun size => (readBody size rest).map fun data =>
    ⟨subject, reply, none, data⟩

/-- A frame with headers. -/
def readHeaders (rest subject : Bytes) (reply : Option Bytes) (hdr size : Bytes) :
    Option PubFrame :=
  (readNumber hdr).bind fun hdr => (readNumber size).bind fun size =>
    (readBody size rest).bind fun data =>
      if hdr ≤ size then some ⟨subject, reply, some hdr, data⟩ else none

/-- The tokens of a line are read. -/
def readTokens (rest : Bytes) : List Bytes → Option PubFrame
  | [op, subject, size] =>
      if op = word ['P', 'U', 'B'] then readPlain rest subject none size else none
  | [op, subject, arg, size] =>
      if op = word ['P', 'U', 'B'] then readPlain rest subject (some arg) size
      else if op = word ['H', 'P', 'U', 'B'] then readHeaders rest subject none arg size
      else none
  | [op, subject, reply, hdr, size] =>
      if op = word ['H', 'P', 'U', 'B'] then readHeaders rest subject (some reply) hdr size
      else none
  | _ => none

/-- The server reads a `PUB` or an `HPUB`. -/
def readPub (bs : Bytes) : Option PubFrame :=
  match readLine bs with
  | some (line, rest) => readTokens rest (splitArgs none line)
  | none => none

/-- The message the server sends to a subscription. -/
def PubFrame.relay (f : PubFrame) (sid : Nat) : ServerOp :=
  match f.hdr with
  | some hdr => .hmsg f.subject sid f.reply hdr f.data
  | none => .msg f.subject sid f.reply f.data

/-! ## The bytes of a publish -/

/-- ASCII text is encoded as the codes of its characters. -/
theorem encode_word {cs : List Char} (hcs : ∀ c ∈ cs, c.toNat < 128) :
    encode (String.ofList cs) = word cs := by
  rw [encode_eq, String.toList_ofList]
  induction cs with
  | nil => rfl
  | cons c cs ih =>
      have hc : String.utf8EncodeChar c = [cc c] := by
        have hle : c.val.toNat ≤ 127 := Nat.le_of_lt_succ (hcs c List.mem_cons_self)
        simp only [String.utf8EncodeChar, if_pos hle]
        rfl
      rw [List.flatMap_cons, hc, ih fun d hd => hcs d (List.mem_cons_of_mem c hd)]
      rfl

theorem digit_of_mem_toDigits {n : Nat} {c : Char} (hc : c ∈ Nat.toDigits 10 n) :
    c.isDigit = true :=
  Nat.isDigit_of_mem_toDigits (by omega) (Nat.le_refl 10) hc

theorem encode_toString (n : Nat) : encode (toString n) = decimal n := by
  have hdigits : ∀ c ∈ Nat.toDigits 10 n, c.toNat < 128 := by
    intro c hc
    have hrange := toNat_cc (digit_of_mem_toDigits hc)
    omega
  exact encode_word hdigits

/-- A control character. -/
def isControl (c : Char) : Bool := c.toNat < 32 || (127 ≤ c.toNat && c.toNat < 160)

/-- A subject that is published on: not empty, without whitespace and control characters. -/
def IsSubject (s : String) : Prop :=
  s ≠ "" ∧ ∀ c ∈ s.toList, isSpace c = false ∧ isControl c = false

instance (s : String) : Decidable (IsSubject s) :=
  @instDecidableAnd _ _ _ (List.decidableBAll _ s.toList)

/-- A word of a protocol line: not empty, and without whitespace. -/
def IsWord (s : String) : Prop := s ≠ "" ∧ ∀ c ∈ s.toList, isSpace c = false

instance (s : String) : Decidable (IsWord s) :=
  @instDecidableAnd _ _ _ (List.decidableBAll _ s.toList)

theorem IsSubject.isWord {s : String} (h : IsSubject s) : IsWord s :=
  ⟨h.1, fun c hc => (h.2 c hc).1⟩

/-- The separators are characters of their own in UTF-8. -/
theorem not_separator_utf8 {c : Char} (hspace : isSpace c = false) :
    ∀ b ∈ String.utf8EncodeChar c, isSeparator b = false := by
  have hlarge : ∀ b : UInt8, 32 < b.toNat → isSeparator b = false := by
    intro b hb
    have hne : ∀ d : Char, (cc d).toNat ≤ 32 → ¬ b = cc d := by
      rintro d hd rfl
      omega
    simp [isSeparator, hne ' ' (by decide), hne '\t' (by decide), hne '\r' (by decide),
      hne '\n' (by decide)]
  -- a character of one byte is no separator, as that would be a space
  have hascii : ∀ n : Fin 128, isSpace (Char.ofNat n) = false →
      isSeparator (UInt8.ofNat n) = false := by
    decide
  intro b hb
  have hval : c.val.toNat = c.toNat := rfl
  simp only [String.utf8EncodeChar, hval] at hb
  -- one branch for each width; beyond ASCII every byte is at least 128
  split at hb
  · rename_i hle
    have hsame := hascii ⟨c.toNat, by omega⟩
    rw [Char.ofNat_toNat] at hsame
    rw [List.mem_singleton.1 hb]
    exact hsame hspace
  · apply hlarge
    split at hb
    · simp only [List.mem_cons, List.not_mem_nil, or_false] at hb
      rcases hb with rfl | rfl <;> rw [UInt8.toNat_ofNat'] <;> omega
    · split at hb
      · simp only [List.mem_cons, List.not_mem_nil, or_false] at hb
        rcases hb with rfl | rfl | rfl <;> rw [UInt8.toNat_ofNat'] <;> omega
      · simp only [List.mem_cons, List.not_mem_nil, or_false] at hb
        rcases hb with rfl | rfl | rfl | rfl <;> rw [UInt8.toNat_ofNat'] <;> omega

/-- A word is a name of the protocol. -/
theorem IsWord.isName {s : String} (h : IsWord s) : ServerOp.IsName (encode s) := by
  constructor
  · intro hnil
    have hlen := congrArg List.length hnil
    rw [length_encode] at hlen
    exact h.1 (String.utf8ByteSize_eq_zero_iff.1 hlen)
  · intro b hb
    rw [encode_eq] at hb
    obtain ⟨c, hc, hb⟩ := List.mem_flatMap.1 hb
    exact not_separator_utf8 (h.2 c hc) b hb

/-- A subject is decoded to itself. -/
theorem IsSubject.decode_encode {s : String} (h : IsSubject s) : decode (encode s) = s := by
  apply Wire.decode_encode
  intro hhead
  have hmark := (h.2 _ (List.mem_of_head? hhead)).1
  revert hmark
  decide

/-- The reply on the wire. -/
def replyBytes (reply : String) : Option Bytes := if reply ≠ "" then some (encode reply) else none

/-- The tokens in the line of a publish. -/
def pubTokens (op : Bytes) (subject reply : String) (sizes : List Nat) : List Bytes :=
  [op, encode subject] ++ (replyBytes reply).toList ++ sizes.map decimal

/-- The line of a publish without headers is its tokens. -/
theorem encode_pubLine (subject reply : String) (len : Nat) :
    encode (pubLine subject reply len) =
      joinArgs (pubTokens (word ['P', 'U', 'B']) subject reply [len]) ++ crlf := by
  have hop : encode "PUB " = word ['P', 'U', 'B'] ++ [cc ' '] := by decide
  have hblank : encode " " = [cc ' '] := by decide
  have hend : encode "\r\n" = crlf := by decide
  rw [pubLine, pubTokens, replyBytes]
  split <;>
    simp [toString, hop, hblank, hend, joinArgs, ← encode_toString]

theorem encode_hpubLine (subject reply : String) (hlen len : Nat) :
    encode (hpubLine subject reply hlen len) =
      joinArgs (pubTokens (word ['H', 'P', 'U', 'B']) subject reply [hlen, len]) ++ crlf := by
  have hop : encode "HPUB " = word ['H', 'P', 'U', 'B'] ++ [cc ' '] := by decide
  have hblank : encode " " = [cc ' '] := by decide
  have hend : encode "\r\n" = crlf := by decide
  rw [hpubLine, pubTokens, replyBytes]
  split <;>
    simp [toString, hop, hblank, hend, joinArgs, ← encode_toString]

/-- The first line is read. -/
theorem readLine_line {line : Bytes} (hline : ∀ b ∈ line, b ≠ cc '\r') (rest : Bytes) :
    readLine (line ++ crlf ++ rest) = some (line, rest) := by
  induction line with
  | nil => rfl
  | cons b line ih =>
      rw [List.cons_append, List.cons_append, readLine, if_neg (hline b List.mem_cons_self),
        ih fun b' hb' => hline b' (List.mem_cons_of_mem b hb')]
      rfl

theorem readNumber_decimal (n : Nat) : readNumber (decimal n) = some n := by
  have hne : decimal n ≠ [] := by
    simp [decimal, word, Nat.toDigits_ne_nil]
  have hrange : ∀ b ∈ decimal n, 48 ≤ b ∧ b ≤ 57 := by
    intro b hb
    obtain ⟨c, hc, rfl⟩ := List.mem_map.1 hb
    obtain ⟨hcc, hlow, hhigh⟩ := toNat_cc (digit_of_mem_toDigits hc)
    rw [UInt8.le_iff_toNat_le, UInt8.le_iff_toNat_le, hcc]
    exact ⟨hlow, hhigh⟩
  have hback : (decimal n).map (fun b => Char.ofNat b.toNat) = Nat.toDigits 10 n := by
    rw [decimal, word, List.map_map]
    refine (List.map_congr_left ?_).trans (List.map_id _)
    intro c hc
    rw [Function.comp_apply, (toNat_cc (digit_of_mem_toDigits hc)).1, Char.ofNat_toNat]
    rfl
  rw [readNumber, if_pos ⟨hne, hrange⟩, hback, Nat.ofDigitChars_ten_toDigits]

theorem readBody_data (data : Bytes) : readBody data.length (data ++ crlf) = some data := by
  rw [readBody, List.drop_left, if_pos rfl, List.take_left]

/-! ## The round trip -/

/-- The bytes `sendCommand` queues for a publish. -/
def frameBytes (proto : String) (payloads : List Bytes) : Bytes := encode proto ++ payloads.flatten

/-- The fields of a publish. -/
def pubFrame (subject : String) (payload : Payload) (options : PublishOptions) : PubFrame where
  subject := encode subject
  reply := replyBytes options.reply
  hdr := options.headers.map fun hdrs => hdrs.encode.length
  data := (options.headers.map MsgHdrs.encode).getD [] ++ payload.data

theorem isName_replyBytes {reply : String} (hreply : reply = "" ∨ IsWord reply) :
    ∀ r ∈ replyBytes reply, ServerOp.IsName r := by
  intro r hr
  rw [replyBytes] at hr
  rcases hreply with rfl | hreply
  · cases hr
  · rw [if_pos hreply.1] at hr
    cases hr
    exact hreply.isName

theorem isName_of_mem_pubTokens {op : Bytes} {subject reply : String} (sizes : List Nat)
    (hop : ServerOp.IsName op) (hsubject : IsWord subject) (hreply : reply = "" ∨ IsWord reply) :
    ∀ t ∈ pubTokens op subject reply sizes, ServerOp.IsName t := by
  intro t ht
  simp only [pubTokens, List.mem_append, List.mem_cons, List.not_mem_nil, or_false,
    Option.mem_toList, List.mem_map] at ht
  rcases ht with ((rfl | rfl) | ht) | ⟨n, -, rfl⟩
  · exact hop
  · exact hsubject.isName
  · exact isName_replyBytes hreply t ht
  · exact isName_decimal n

theorem pubTokens_ne_nil (op : Bytes) (subject reply : String) (sizes : List Nat) :
    pubTokens op subject reply sizes ≠ [] :=
  List.cons_ne_nil _ _

/-- The server splits the line into its tokens. -/
theorem readPub_line {tokens : List Bytes} (hne : tokens ≠ [])
    (hnames : ∀ t ∈ tokens, ServerOp.IsName t) (rest : Bytes) :
    readPub (joinArgs tokens ++ crlf ++ rest) = readTokens rest tokens := by
  have hline := isLine_joinArgs hne hnames
  rw [readPub, readLine_line fun b hb => (hline.2.2 b hb).1]
  simp only [splitArgs_joinArgs hnames]

/-- **The server reads the fields of a publish.** -/
theorem readPub_publish {info : Option ServerInfo} {subject : String} {payload : Payload}
    {options : PublishOptions} {proto : String} {payloads : List Bytes}
    (hsubject : IsWord subject) (hreply : options.reply = "" ∨ IsWord options.reply)
    (hpublish : publish info subject payload options = .ok (proto, payloads)) :
    readPub (frameBytes proto payloads) = some (pubFrame subject payload options) := by
  have hcrlf : CRLF = crlf := by decide
  rcases publish_cases hpublish with ⟨hdrs, hheaders, rfl, rfl⟩ | ⟨hheaders, rfl, rfl⟩
  · -- an HPUB has two sizes, that of the headers and that of all
    have hop : ServerOp.IsName (word ['H', 'P', 'U', 'B']) := by decide
    have hnames := isName_of_mem_pubTokens
      [hdrs.encode.length, payload.data.length + hdrs.encode.length] hop hsubject hreply
    have hsize : payload.data.length + hdrs.encode.length =
        (hdrs.encode ++ payload.data).length := by
      rw [List.length_append, Nat.add_comm]
    have hle : hdrs.encode.length ≤ (hdrs.encode ++ payload.data).length := by
      rw [List.length_append]
      exact Nat.le_add_right _ _
    have hbody : [hdrs.encode, payload.data, CRLF].flatten = hdrs.encode ++
        payload.data ++ crlf := by
      rw [hcrlf]
      simp
    have hfields : ∀ reply, readHeaders (hdrs.encode ++ payload.data ++ crlf) (encode subject) reply
        (decimal hdrs.encode.length) (decimal (hdrs.encode ++ payload.data).length) =
        some ⟨encode subject, reply, some hdrs.encode.length, hdrs.encode ++ payload.data⟩ := by
      intro reply
      rw [readHeaders, readNumber_decimal, Option.bind_some, readNumber_decimal, Option.bind_some,
        readBody_data, Option.bind_some, if_pos hle]
    rw [frameBytes, encode_hpubLine, hbody, readPub_line (pubTokens_ne_nil _ _ _ _) hnames,
      pubTokens, pubFrame, hheaders, hsize]
    cases replyBytes options.reply with
    | none => exact hfields none
    | some reply => exact hfields (some reply)
  · -- a PUB has one
    have hop : ServerOp.IsName (word ['P', 'U', 'B']) := by decide
    have hnames := isName_of_mem_pubTokens [payload.data.length] hop hsubject hreply
    have hbody : [payload.data, CRLF].flatten = payload.data ++ crlf := by
      rw [hcrlf]
      simp
    have hfields : ∀ reply, readPlain (payload.data ++ crlf) (encode subject) reply
        (decimal payload.data.length) = some ⟨encode subject, reply, none, payload.data⟩ := by
      intro reply
      rw [readPlain, readNumber_decimal, Option.bind_some, readBody_data, Option.map_some]
    rw [frameBytes, encode_pubLine, hbody, readPub_line (pubTokens_ne_nil _ _ _ _) hnames,
      pubTokens, pubFrame, hheaders]
    cases replyBytes options.reply with
    | none => exact hfields none
    | some reply => exact hfields (some reply)

/-- The message made of a relayed frame. -/
def PubFrame.message (f : PubFrame) (sid : Nat) : MsgImpl where
  msg := ⟨f.subject, f.reply, sid, (f.hdr.map Int.ofNat).getD (-1), f.data.length⟩
  rdata := f.data

/-- One call of `parse` reads a relayed frame. -/
theorem parse_relay {f : PubFrame} {sid : Nat} (hsubject : ServerOp.IsName f.subject)
    (hreply : ∀ r ∈ f.reply, ServerOp.IsName r) (hhdr : ∀ n ∈ f.hdr, n ≤ f.data.length)
    (hsid : sid ≤ 2 ^ 53) (hdata : f.data.length ≤ 2 ^ 53) :
    ∃ p e, parse collect .new [] (f.relay sid).wire = .ok p [e] ∧
      MsgImpl.ofEvent e = some (f.message sid) := by
  obtain ⟨subject, reply, hdr, data⟩ := f
  cases hdr with
  | none =>
      obtain ⟨p, hparse, -⟩ := parse_msg ⟨hsubject, hreply⟩ ⟨hsid, hdata⟩
      exact ⟨p, _, hparse, rfl⟩
  | some hdr =>
      obtain ⟨p, hparse, -⟩ := parse_hmsg ⟨hsubject, hreply, hhdr hdr rfl⟩ ⟨hsid, hdata⟩
      exact ⟨p, _, hparse, rfl⟩

/-- The message that the frame of a publish comes back as. -/
def IsRelayed (proto : String) (payloads : List Bytes) (sid : Nat) (m : MsgImpl) : Prop :=
  ∃ f p e, readPub (frameBytes proto payloads) = some f ∧
    parse collect .new [] (f.relay sid).wire = .ok p [e] ∧ MsgImpl.ofEvent e = some m

theorem IsRelayed.unique {proto : String} {payloads : List Bytes} {sid : Nat} {m m' : MsgImpl}
    (h : IsRelayed proto payloads sid m) (h' : IsRelayed proto payloads sid m') : m = m' := by
  obtain ⟨f, p, e, hread, hparse, hevent⟩ := h
  obtain ⟨f', p', e', hread', hparse', hevent'⟩ := h'
  obtain rfl : f = f' := Option.some.inj (hread.symm.trans hread')
  rw [hparse] at hparse'
  cases hparse'
  exact Option.some.inj (hevent.symm.trans hevent')

section

variable [Engine]

/-- A message has the subject, the reply and the data of a publish, and headers that are equal to
those of the publish, or none. -/
structure Carries (subject : String) (payload : Payload) (options : PublishOptions) (m : MsgImpl) :
    Prop where
  subject : m.subject = subject
  reply : m.reply = options.reply
  data : m.data = payload.data
  plain : options.headers = none → m.headers = none
  headers : ∀ hdrs ∈ options.headers, ∃ mh, m.headers = some (.ok mh) ∧ mh.equals hdrs = .ok true

variable {info : Option ServerInfo} {subject : String} {payload : Payload}
  {options : PublishOptions} {proto : String} {payloads : List Bytes} {sid : Nat}

/-- A publish comes back as a message with its subject, reply, data and headers. -/
theorem isRelayed_publish (hsubject : IsSubject subject)
    (hreply : options.reply = "" ∨ IsSubject options.reply)
    (hheaders : ∀ hdrs ∈ options.headers, hdrs.size ≠ 0 ∧ ∃ cs, hdrs = MsgHdrs.build cs)
    (hpublish : publish info subject payload options = .ok (proto, payloads))
    (hframe : (frameBytes proto payloads).length < 2 ^ 53) (hsid : sid ≤ 2 ^ 53) :
    ∃ m, IsRelayed proto payloads sid m ∧ m.subject = subject ∧ m.reply = options.reply ∧
      m.data = payload.data ∧ (options.headers = none → m.headers = none) ∧
      ∀ hdrs ∈ options.headers, m.headers = some (.ok hdrs) := by
  have hreplyWord := hreply.imp_right IsSubject.isWord
  have hread := readPub_publish hsubject.isWord hreplyWord hpublish
  -- the payload is shorter than the frame, so its size is read exactly
  have hlen : (pubFrame subject payload options).data.length ≤
      (frameBytes proto payloads).length := by
    rcases publish_cases hpublish with ⟨hdrs, hsome, rfl, rfl⟩ | ⟨hnone, rfl, rfl⟩
    · simp only [pubFrame, hsome, frameBytes, Option.map_some, Option.getD_some, List.flatten_cons,
        List.length_append]
      omega
    · simp only [pubFrame, hnone, frameBytes, Option.map_none, Option.getD_none, List.flatten_cons,
        List.length_append, List.length_nil]
      omega
  -- the header block is a part of it
  have hhdr : ∀ n ∈ (pubFrame subject payload options).hdr,
      n ≤ (pubFrame subject payload options).data.length := by
    intro n hn
    obtain ⟨hdrs, hsome, rfl⟩ := Option.map_eq_some_iff.1 hn
    simp [pubFrame, hsome]
  obtain ⟨p, e, hparse, hevent⟩ := @parse_relay (pubFrame subject payload options) sid
    hsubject.isWord.isName (isName_replyBytes hreplyWord) hhdr hsid (by omega)
  refine ⟨_, ⟨_, p, e, hread, hparse, hevent⟩, hsubject.decode_encode, ?_, ?_, ?_, ?_⟩
  · show (match replyBytes options.reply with
      | some reply => decode reply
      | none => "") = options.reply
    rw [replyBytes]
    rcases hreply with hempty | hsome
    · rw [hempty]
      rfl
    · rw [if_pos hsome.1]
      exact hsome.decode_encode
  · cases hheaders' : options.headers with
    | none => simp [MsgImpl.data, PubFrame.message, pubFrame, hheaders']
    | some hdrs =>
        have hpos : (-1 : Int) < (hdrs.encode.length : Int) := by omega
        simp [MsgImpl.data, PubFrame.message, pubFrame, hheaders', hpos]
  · intro hnone
    simp [MsgImpl.headers, PubFrame.message, pubFrame, hnone]
  · intro hdrs hsome
    obtain ⟨hsize, cs, rfl⟩ := hheaders hdrs hsome
    rw [← MsgHdrs.decode_encode (MsgHdrs.wellFormed_build cs) hsize]
    have hpos : (-1 : Int) < ((MsgHdrs.build cs).encode.length : Int) := by omega
    rw [Option.mem_def] at hsome
    simp [MsgImpl.headers, PubFrame.message, pubFrame, hsome, hpos]

/-- Headers that came back as they were are equal to themselves only if a call takes the values of
each key. -/
theorem Carries.listed {m : MsgImpl} {hdrs : MsgHdrs} (hm : Carries subject payload options m)
    (hsome : hdrs ∈ options.headers) (hread : m.headers = some (.ok hdrs)) :
    ∀ e ∈ hdrs.headers.entries, MsgHdrs.Listed e := by
  obtain ⟨mh, hmh, hequals⟩ := hm.headers hdrs hsome
  rw [hread, Option.some.injEq, Except.ok.injEq] at hmh
  rw [← hmh] at hequals
  exact (MsgHdrs.equals_self_iff hdrs).1 hequals

/-- **A publish comes back as a message** with its subject, reply, data and headers, exactly if no
key of its headers has more values than a call takes: otherwise the headers cannot be compared. -/
theorem relay_publish (hsubject : IsSubject subject)
    (hreply : options.reply = "" ∨ IsSubject options.reply)
    (hheaders : ∀ hdrs ∈ options.headers, hdrs.size ≠ 0 ∧ ∃ cs, hdrs = MsgHdrs.build cs)
    (hpublish : publish info subject payload options = .ok (proto, payloads))
    (hframe : (frameBytes proto payloads).length < 2 ^ 53) (hsid : sid ≤ 2 ^ 53) :
    (∃ m, IsRelayed proto payloads sid m ∧ Carries subject payload options m) ↔
      ∀ hdrs ∈ options.headers, ∀ e ∈ hdrs.headers.entries, MsgHdrs.Listed e := by
  obtain ⟨m, hrelayed, hm, hmreply, hdata, hplain, hread⟩ :=
    isRelayed_publish hsubject hreply hheaders hpublish hframe hsid
  constructor
  · rintro ⟨m', hrelayed', hcarries⟩ hdrs hsome
    obtain rfl : m = m' := hrelayed.unique hrelayed'
    exact hcarries.listed hsome (hread hdrs hsome)
  · intro hlisted
    exact ⟨m, hrelayed, hm, hmreply, hdata, hplain, fun hdrs hsome =>
      ⟨hdrs, hread hdrs hsome, (MsgHdrs.equals_self_iff hdrs).2 (hlisted hdrs hsome)⟩⟩

end

/-- A request with headers, a reply and no data. -/
theorem relay_publish_headers :
    letI : Engine := .common
    let hdrs := MsgHdrs.build [.set "K" "v" .exact]
    (∃ m, IsRelayed (hpubLine "é" "r" 18 18) [hdrs.encode, [], CRLF] 7 m ∧
      Carries "é" (.bytes []) ⟨"r", some hdrs⟩ m) ∧
    ∀ e ∈ hdrs.headers.entries, MsgHdrs.Listed e := by
  let _ : Engine := .common
  intro hdrs
  have hlisted : ∀ e ∈ hdrs.headers.entries, MsgHdrs.Listed e := by
    have hall : hdrs.headers.entries.all (fun e => e.2.length ≤ 125000) = true := by decide
    exact fun e he =>
      of_decide_eq_true (p := e.2.length ≤ 125000) (List.all_eq_true.1 hall e he)
  refine ⟨(@relay_publish _ (some ⟨true, 1024⟩) "é" (.bytes []) ⟨"r", some hdrs⟩ _ _ 7 (by decide)
    (by decide) ?_ rfl (by decide) (by decide)).2 ?_, hlisted⟩
  · intro h hsome
    cases hsome
    exact ⟨by decide, _, rfl⟩
  · intro h hsome
    cases hsome
    exact hlisted

/-- The length of a block with many values: six bytes for each of them, and the first and last
lines. -/
theorem length_encode_manyValues (n : Nat) :
    (MsgHdrs.manyValues (n + 1)).encode.length = 6 * n + 18 := by
  have hline : (MsgHdrs.manyValues (n + 1)).lines = List.replicate (n + 1)
      (MsgHdrs.line "k" "v") := by
    rw [MsgHdrs.lines, MsgHdrs.entries_manyValues]
    simp only [List.flatMap_cons, List.flatMap_nil, List.append_nil, List.map_replicate]
    rfl
  have hstatus : (MsgHdrs.manyValues (n + 1)).statusLine = header := rfl
  have hne : ¬ ((MsgHdrs.manyValues (n + 1)).size = 0 ∧ (MsgHdrs.manyValues (n + 1)).code = 0) :=
    fun hempty => Nat.one_ne_zero hempty.1
  have hfirst : (header.flatMap String.utf8EncodeChar).length = 8 := by decide +kernel
  have hlast : ([ '\r', '\n', '\r', '\n'].flatMap String.utf8EncodeChar).length = 4 :=
    by decide +kernel
  have hvalue : (('\r' :: '\n' :: MsgHdrs.line "k" "v").flatMap String.utf8EncodeChar).length =
      6 := by
    decide +kernel
  rw [MsgHdrs.encode, encode_eq, MsgHdrs.toList_text hne, hstatus, hline, List.flatMap_append,
    List.flatMap_append, List.flatMap_assoc, List.length_append, List.length_append, hfirst, hlast,
    List.length_flatMap, List.map_replicate, hvalue, List.sum_replicate_nat]
  omega

/-- The headers of a publish with more values of a key than a call takes cannot be compared. -/
theorem not_relay_publish :
    letI : Engine := .common
    ¬ ∀ (info : Option ServerInfo) (subject : String) (payload : Payload) (options : PublishOptions)
      (proto : String) (payloads : List Bytes) (sid : Nat),
      IsSubject subject → (options.reply = "" ∨ IsSubject options.reply) →
      (∀ hdrs ∈ options.headers, hdrs.size ≠ 0 ∧ ∃ cs, hdrs = MsgHdrs.build cs) →
      publish info subject payload options = .ok (proto, payloads) →
      (frameBytes proto payloads).length < 2 ^ 53 → sid ≤ 2 ^ 53 →
      ∃ m, IsRelayed proto payloads sid m ∧ Carries subject payload options m := by
  let _ : Engine := .common
  intro hall
  let hdrs := MsgHdrs.manyValues 200000
  have hlength : hdrs.encode.length = 1200012 := length_encode_manyValues 199999
  have hheaders : ∀ h ∈ some hdrs, h.size ≠ 0 ∧ ∃ cs, h = MsgHdrs.build cs := by
    intro h hsome
    cases hsome
    exact ⟨Nat.one_ne_zero, _, (MsgHdrs.build_manyValues 199999).symm⟩
  have hframe : (frameBytes (hpubLine "s" "" 1200012 1200012) [hdrs.encode, [], CRLF]).length <
      2 ^ 53 := by
    have hproto : (encode (hpubLine "s" "" 1200012 1200012)).length = 24 := by decide +kernel
    have hcrlf : CRLF.length = 2 := by decide
    simp only [frameBytes, List.length_append, List.flatten_cons, List.flatten_nil, List.length_nil,
      hlength, hproto, hcrlf]
    decide
  have hpublish : publish none "s" (.bytes []) ⟨"", some hdrs⟩ =
      .ok (hpubLine "s" "" 1200012 1200012, [hdrs.encode, [], CRLF]) := by
    simp only [publish, hlength, Payload.data, List.length_nil, Nat.zero_add, Option.any_none,
      Bool.false_eq_true, if_false]
  have hsubject : IsSubject "s" := by decide
  obtain ⟨m, hrelayed, hm⟩ :=
    hall none "s" (.bytes []) ⟨"", some hdrs⟩ _ _ 1 hsubject (.inl rfl) hheaders hpublish hframe
      (by decide)
  obtain ⟨m', hrelayed', -, -, -, -, hread⟩ :=
    @isRelayed_publish _ none "s" (.bytes []) ⟨"", some hdrs⟩ _ _ 1 hsubject
      (.inl rfl) hheaders hpublish hframe (by decide)
  obtain rfl : m = m' := hrelayed.unique hrelayed'
  exact MsgHdrs.not_listed_manyValues (by decide) (hm.listed rfl (hread hdrs rfl))

end NatsClient.Wire
