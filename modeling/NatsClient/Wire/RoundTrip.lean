import NatsClient.Wire.Refinement

/-!
# What the server sends is what the dispatcher gets

The operations of the server (`ServerOp`), the bytes each of them is sent as (`ServerOp.wire`) and
the event it must become (`ServerOp.event`).

* `scan_wire`: the scanner reads one operation and is between two operations again;
* `parse_exact`: on well-formed operations, however the bytes are cut into chunks, the parser pushes
  exactly their events and ends without a buffer in use;
* `not_parse_exact`: numbers above `2 ^ 53` and payloads beyond the limit of the buffer are
  excluded for a reason.
-/

set_option autoImplicit false

namespace NatsClient.Wire

open NatsClient.Foundation

/-- An operation of the server. The data of a message with headers starts with the `hdr` bytes of
the headers. -/
inductive ServerOp where
  | info (arg : Bytes)
  | msg (subject : Bytes) (sid : Nat) (reply : Option Bytes) (data : Bytes)
  | hmsg (subject : Bytes) (sid : Nat) (reply : Option Bytes) (hdr : Nat) (data : Bytes)
  | ping
  | pong
  | ok
  | err (arg : Bytes)
deriving DecidableEq, Repr

/-- A word of the protocol. -/
def word (cs : List Char) : Bytes := cs.map cc

/-- The decimal digits of a number. -/
def decimal (n : Nat) : Bytes := word (Nat.toDigits 10 n)

/-- The end of a line. -/
def crlf : Bytes := [cc '\r', cc '\n']

/-- Tokens with a blank between them. -/
def joinArgs : List Bytes → Bytes
  | [] => []
  | [t] => t
  | t :: ts => t ++ cc ' ' :: joinArgs ts

/-- The tokens in the argument of a message, the sizes being given. -/
def messageArgs (subject : Bytes) (sid : Nat) (reply : Option Bytes) (sizes : List Nat) :
    List Bytes :=
  [subject, decimal sid] ++ reply.toList ++ sizes.map decimal

namespace ServerOp

/-- The argument text. -/
def argText : ServerOp → Bytes
  | info arg | err arg => arg
  | msg subject sid reply data => joinArgs (messageArgs subject sid reply [data.length])
  | hmsg subject sid reply hdr data => joinArgs (messageArgs subject sid reply [hdr, data.length])
  | ping | pong | ok => []

/-- The bytes on the wire. -/
def wire : ServerOp → Bytes
  | op@(info _) => word ['I', 'N', 'F', 'O', ' '] ++ op.argText ++ crlf
  | op@(err _) => word ['-', 'E', 'R', 'R', ' '] ++ op.argText ++ crlf
  | op@(msg _ _ _ data) => word ['M', 'S', 'G', ' '] ++ op.argText ++ crlf ++ data ++ crlf
  | op@(hmsg _ _ _ _ data) => word ['H', 'M', 'S', 'G', ' '] ++ op.argText ++ crlf ++ data ++ crlf
  | ping => word ['P', 'I', 'N', 'G'] ++ crlf
  | pong => word ['P', 'O', 'N', 'G'] ++ crlf
  | ok => word ['+', 'O', 'K'] ++ crlf

/-- The event the dispatcher is to be pushed. -/
def event : ServerOp → ParserEvent
  | info arg => ⟨.info, none, some arg⟩
  | err arg => ⟨.err, none, some arg⟩
  | msg subject sid reply data => ⟨.msg, some ⟨subject, reply, sid, -1, data.length⟩, some data⟩
  | hmsg subject sid reply hdr data =>
      ⟨.msg, some ⟨subject, reply, sid, hdr, data.length⟩, some data⟩
  | ping => ⟨.ping, none, none⟩
  | pong => ⟨.pong, none, none⟩
  | ok => ⟨.ok, none, none⟩

/-- A name: not empty, without whitespace. -/
def IsName (name : Bytes) : Prop := name ≠ [] ∧ ∀ b ∈ name, isSeparator b = false

instance (name : Bytes) : Decidable (IsName name) :=
  @instDecidableAnd _ _ _ (List.decidableBAll _ name)

/-- The argument of an `INFO` or `-ERR`: one line that does not start with a blank. -/
def IsLine (arg : Bytes) : Prop :=
  (∀ b ∈ arg.head?, isSeparator b = false) ∧ arg ≠ [] ∧ ∀ b ∈ arg, b ≠ cc '\r' ∧ b ≠ cc '\n'

instance (arg : Bytes) : Decidable (IsLine arg) :=
  @instDecidableAnd _ _ (Option.decidableForallMem arg.head?)
    (@instDecidableAnd _ _ _ (List.decidableBAll _ arg))

/-- A well-formed operation. -/
def WellFormed : ServerOp → Prop
  | info arg | err arg => IsLine arg
  | msg subject _ reply _ => IsName subject ∧ ∀ r ∈ reply, IsName r
  | hmsg subject _ reply hdr data =>
      IsName subject ∧ (∀ r ∈ reply, IsName r) ∧ hdr ≤ data.length
  | ping | pong | ok => True

instance : DecidablePred WellFormed
  | info arg | err arg => inferInstanceAs (Decidable (IsLine arg))
  | msg _ _ none _ | msg _ _ (some _) _ => inferInstanceAs (Decidable (_ ∧ _))
  | hmsg _ _ none _ _ | hmsg _ _ (some _) _ _ => inferInstanceAs (Decidable (_ ∧ _))
  | ping | pong | ok => inferInstanceAs (Decidable True)

/-- The subscription id of a message. -/
def sid : ServerOp → Nat
  | msg _ sid _ _ | hmsg _ sid _ _ _ => sid
  | _ => 0

/-- The payload. -/
def data : ServerOp → Bytes
  | msg _ _ _ data | hmsg _ _ _ _ data => data
  | _ => []

/-- The sizes the client can handle: the number format holds the subscription id, and argument and
payload stay below `2 ^ 31` bytes. -/
def InRange (op : ServerOp) : Prop :=
  op.sid ≤ 2 ^ 53 ∧ op.argText.length < 2 ^ 31 ∧ op.data.length < 2 ^ 31

instance : DecidablePred InRange := fun op =>
  inferInstanceAs
    (Decidable (op.sid ≤ 2 ^ 53 ∧ op.argText.length < 2 ^ 31 ∧ op.data.length < 2 ^ 31))

end ServerOp

/-! ## Numbers and tokens -/

theorem toNat_cc {c : Char} (h : c.isDigit = true) :
    (cc c).toNat = c.toNat ∧ 48 ≤ c.toNat ∧ c.toNat ≤ 57 := by
  have hrange : 48 ≤ c.toNat ∧ c.toNat ≤ 57 := by
    simpa [Char.isDigit, UInt32.le_iff_toNat_le] using h
  refine ⟨?_, hrange⟩
  rw [cc, UInt8.toNat_ofNat']
  omega

theorem le_ofDigitChars (cs : List Char) (n : Nat) : n ≤ Nat.ofDigitChars 10 cs n := by
  induction cs generalizing n with
  | nil => simp
  | cons c cs ih =>
      rw [Nat.ofDigitChars_cons]
      have h := ih (10 * n + (c.toNat - '0'.toNat))
      omega

/-- Digits are read exactly as long as the number is at most `2 ^ 53`. -/
theorem digits_word {cs : List Char} {n : Nat} (hcs : ∀ c ∈ cs, c.isDigit = true)
    (hmax : Nat.ofDigitChars 10 cs n ≤ 2 ^ 53) :
    protoParseInt.digits n (word cs) = Nat.ofDigitChars 10 cs n := by
  induction cs generalizing n with
  | nil => simp [word, protoParseInt.digits]
  | cons c cs ih =>
      obtain ⟨hc, hlow, hhigh⟩ := toNat_cc (hcs c List.mem_cons_self)
      rw [Nat.ofDigitChars_cons] at hmax ⊢
      have hzero : '0'.toNat = 48 := rfl
      have hle := le_ofDigitChars cs (10 * n + (c.toNat - '0'.toNat))
      have hdigit : ¬ (cc c < 48 ∨ 57 < cc c) := by
        rw [UInt8.lt_iff_toNat_lt, UInt8.lt_iff_toNat_lt, hc]
        show ¬ (c.toNat < 48 ∨ 57 < c.toNat)
        omega
      have hround : f64 (f64 (n * 10) + ((cc c).toNat - 48)) = 10 * n + (c.toNat - '0'.toNat) := by
        rw [f64_of_le (by omega : n * 10 ≤ 2 ^ 53), hc, hzero, f64_of_le (by omega), Nat.mul_comm]
      show protoParseInt.digits n (cc c :: word cs) = _
      rw [protoParseInt.digits, if_neg hdigit, hround]
      exact ih (fun d hd => hcs d (List.mem_cons_of_mem c hd)) hmax

/-- **Numbers up to `2 ^ 53` are read exactly.** -/
theorem protoParseInt_decimal {n : Nat} (h : n ≤ 2 ^ 53) : protoParseInt (decimal n) = n := by
  have hne : decimal n ≠ [] := by
    simp [decimal, word, Nat.toDigits_ne_nil]
  have hdigits : ∀ c ∈ Nat.toDigits 10 n, c.isDigit = true := fun c hc =>
    Nat.isDigit_of_mem_toDigits (by omega) (Nat.le_refl 10) hc
  have hvalue : Nat.ofDigitChars 10 (Nat.toDigits 10 n) 0 = n := Nat.ofDigitChars_ten_toDigits
  rw [protoParseInt, if_neg hne, decimal, digits_word hdigits (by rw [hvalue]; exact h), hvalue]

theorem isName_decimal (n : Nat) : ServerOp.IsName (decimal n) := by
  refine ⟨by simp [decimal, word, Nat.toDigits_ne_nil], fun b hb => ?_⟩
  obtain ⟨c, hc, rfl⟩ := List.mem_map.1 hb
  obtain ⟨hcc, hlow, -⟩ :=
    toNat_cc (Nat.isDigit_of_mem_toDigits (by omega) (Nat.le_refl 10) hc)
  have hne : ∀ d : Char, (cc d).toNat < 48 → ¬ cc c = cc d := by
    intro d hd heq
    rw [← heq] at hd
    omega
  simp [isSeparator, hne ' ' (by decide), hne '\t' (by decide), hne '\r' (by decide),
    hne '\n' (by decide)]

/-- The bytes of a name are collected. -/
theorem splitArgs_name {token name rest : Bytes} (h : ∀ b ∈ name, isSeparator b = false) :
    splitArgs (some token) (name ++ rest) = splitArgs (some (token ++ name)) rest := by
  induction name generalizing token with
  | nil => simp
  | cons b bs ih =>
      have hb : ¬ isSeparator b = true := by
        rw [h b List.mem_cons_self]
        decide
      rw [List.cons_append, splitArgs, if_neg hb, ih (fun c hc => h c (List.mem_cons_of_mem b hc)),
        List.append_assoc]
      rfl

/-- **Splitting undoes joining.** -/
theorem splitArgs_joinArgs {tokens : List Bytes} (h : ∀ t ∈ tokens, ServerOp.IsName t) :
    splitArgs none (joinArgs tokens) = tokens := by
  have hfirst : ∀ {name : Bytes} (rest : Bytes), ServerOp.IsName name →
      splitArgs none (name ++ rest) = splitArgs (some name) rest := by
    rintro name rest ⟨hne, hsep⟩
    cases name with
    | nil => exact absurd rfl hne
    | cons b bs =>
        have hb : ¬ isSeparator b = true := by
          rw [hsep b List.mem_cons_self]
          decide
        rw [List.cons_append, splitArgs, if_neg hb,
          splitArgs_name (fun c hc => hsep c (List.mem_cons_of_mem b hc))]
        rfl
  induction tokens with
  | nil => rfl
  | cons t ts ih =>
      have ht := h t List.mem_cons_self
      cases ts with
      | nil =>
          have hlast := hfirst [] ht
          rw [List.append_nil] at hlast
          exact hlast
      | cons t' ts' =>
          rw [joinArgs, hfirst _ ht, splitArgs, if_pos (by decide),
            ih (fun x hx => h x (List.mem_cons_of_mem t hx))]
          exact List.cons_ne_nil _ _

/-- The tokens of a message are names. -/
theorem isName_of_mem_messageArgs {subject : Bytes} (sid : Nat) {reply : Option Bytes}
    (sizes : List Nat) (hsubject : ServerOp.IsName subject)
    (hreply : ∀ r ∈ reply, ServerOp.IsName r) :
    ∀ t ∈ messageArgs subject sid reply sizes, ServerOp.IsName t := by
  intro t ht
  simp only [messageArgs, List.mem_append, List.mem_cons, List.not_mem_nil, or_false,
    Option.mem_toList, List.mem_map] at ht
  rcases ht with ((rfl | rfl) | hr) | ⟨n, -, rfl⟩
  · exact hsubject
  · exact isName_decimal sid
  · exact hreply t hr
  · exact isName_decimal n

/-- The argument of a message is one line. -/
theorem isLine_joinArgs {tokens : List Bytes} (hne : tokens ≠ [])
    (h : ∀ t ∈ tokens, ServerOp.IsName t) : ServerOp.IsLine (joinArgs tokens) := by
  have hline : ∀ {name : Bytes}, ServerOp.IsName name → ∀ b ∈ name, b ≠ cc '\r' ∧ b ≠ cc '\n' := by
    rintro name ⟨-, hsep⟩ b hb
    refine ⟨?_, ?_⟩ <;> rintro rfl <;> cases hsep _ hb
  have hhead : ∀ {name : Bytes} (rest : Bytes), ServerOp.IsName name →
      (∀ b ∈ (name ++ rest).head?, isSeparator b = false) ∧ name ++ rest ≠ [] := by
    rintro name rest ⟨hnil, hsep⟩
    cases name with
    | nil => exact absurd rfl hnil
    | cons b bs =>
        refine ⟨?_, List.cons_ne_nil _ _⟩
        rintro _ ⟨⟩
        exact hsep b List.mem_cons_self
  induction tokens with
  | nil => exact absurd rfl hne
  | cons t ts ih =>
      have ht := h t List.mem_cons_self
      cases ts with
      | nil =>
          have hlast := hhead [] ht
          rw [List.append_nil] at hlast
          exact ⟨hlast.1, hlast.2, hline ht⟩
      | cons t' ts' =>
          obtain ⟨-, -, hrest⟩ := ih (List.cons_ne_nil _ _)
            (fun x hx => h x (List.mem_cons_of_mem t hx))
          refine ⟨(hhead _ ht).1, (hhead _ ht).2, fun b hb => ?_⟩
          rcases List.mem_append.1 hb with hb | hb
          · exact hline ht b hb
          · rcases List.mem_cons.1 hb with rfl | hb
            · decide
            · exact hrest b hb

/-- The argument of a message without headers. -/
theorem argsOf_msg {arg subject : Bytes} {sid size : Nat} {reply : Option Bytes}
    (hsplit : splitArgs none arg = messageArgs subject sid reply [size])
    (hsid : sid ≤ 2 ^ 53) (hsize : size ≤ 2 ^ 53) :
    argsOf (-1) arg = some ⟨subject, reply, sid, -1, size⟩ := by
  have hcheck : checkMsgArgs ⟨subject, reply, sid, -1, size⟩ = none := by
    rw [checkMsgArgs, if_neg (Int.natCast_nonneg sid).not_gt,
      if_neg (Int.natCast_nonneg size).not_gt]
  cases reply <;>
    simp [argsOf, processMsgArgs, hsplit, messageArgs, protoParseInt_decimal hsid,
      protoParseInt_decimal hsize, newMsgArg, hcheck]

/-- The argument of a message with headers. -/
theorem argsOf_hmsg {arg subject : Bytes} {sid hdr size : Nat} {reply : Option Bytes}
    (hsplit : splitArgs none arg = messageArgs subject sid reply [hdr, size])
    (hsid : sid ≤ 2 ^ 53) (hhdr : hdr ≤ size) (hsize : size ≤ 2 ^ 53) :
    argsOf 0 arg = some ⟨subject, reply, sid, hdr, size⟩ := by
  have hcheck : checkHeaderMsgArgs ⟨subject, reply, sid, hdr, size⟩ = none := by
    have hheader : ¬ ((hdr : Int) < 0 ∨ (hdr : Int) > size) := by omega
    rw [checkHeaderMsgArgs, if_neg (Int.natCast_nonneg sid).not_gt, if_neg hheader,
      if_neg (Int.natCast_nonneg size).not_gt]
  cases reply <;>
    simp [argsOf, processMsgArgs, processHeaderMsgArgs, hsplit, messageArgs,
      protoParseInt_decimal hsid, protoParseInt_decimal hsize,
      protoParseInt_decimal (hhdr.trans hsize), hcheck]

/-! ## Scanning one operation -/

/-- A line is collected as an argument. -/
theorem scan_line (st : State) (hdr : Int) {kind : ArgKind} {arg : Bytes}
    (hop : ∀ b, scanByte (.op st hdr) b = scanFirst kind b) (hline : ServerOp.IsLine arg)
    (hlim : arg.length < bufferLimit) :
    scan (.op st hdr) (arg ++ [cc '\r']) = some (.arg kind arg true, []) := by
  obtain ⟨hhead, hne, hbytes⟩ := hline
  cases arg with
  | nil => exact absurd rfl hne
  | cons b bs =>
      have hsep : ¬ isSeparator b = true := by
        rw [hhead b rfl]
        decide
      have hfirst : scanByte (.op st hdr) b = some (.arg kind [b] false, []) := by
        rw [hop, scanFirst, if_neg hsep]
      have hrest : scan (.arg kind [b] false) bs = some (.arg kind ([b] ++ bs) false, []) :=
        scan_arg (fun c hc => hbytes c (List.mem_cons_of_mem b hc)) (by
          simp only [List.length_cons, List.length_nil] at hlim ⊢
          omega)
      have hcr : scan (.arg kind ([b] ++ bs) false) [cc '\r'] =
          some (.arg kind ([b] ++ bs) true, []) := by
        simp [scan, scanByte]
      exact scan_cons hfirst (scan_append hrest hcr)

/-- The payload, and the end of line behind it. -/
theorem scan_data {ma : MsgArg} {data : Bytes} (hsize : ma.size = data.length) :
    scan (.payload ma []) (data ++ crlf) = some (.start, [⟨.msg, some ma, some data⟩]) := by
  have hdata : scan (.payload ma []) data = some (.payload ma data, []) := by
    have h := scan_payload ma [] data (by
      rw [hsize, List.length_nil, Nat.zero_add])
    rwa [List.nil_append] at h
  have hend : scan (.payload ma data) crlf = some (.start, [⟨.msg, some ma, some data⟩]) := by
    have hfull : ma.size ≤ (data.length : Int) := hsize.le
    simp [scan, crlf, scanByte, hfull, scanOp]
  exact scan_append hdata hend

/-- A message behind its keyword. -/
theorem scan_message {hdr : Int} {arg data : Bytes} {ma : MsgArg} (hline : ServerOp.IsLine arg)
    (hlim : arg.length < bufferLimit) (hargs : argsOf hdr arg = some ma)
    (hsize : ma.size = data.length) (hdata : data.length < bufferLimit) :
    scan (.op .opMsgSpc hdr) (arg ++ crlf ++ data ++ crlf) =
      some (.start, [⟨.msg, some ma, some data⟩]) := by
  have hword := scan_line .opMsgSpc hdr (fun _ => rfl) hline hlim
  have hnl : scan (.arg (.msg hdr) arg true) [cc '\n'] = some (.payload ma [], []) := by
    have hroom : ma.size < bufferLimit := by omega
    simp [scan, scanByte, scanArgEnd, hargs, hroom]
  have hall := scan_append (scan_append hword hnl) (scan_data hsize)
  simpa [crlf] using hall

/-- **The scanner reads one operation.** -/
theorem scan_wire {op : ServerOp} (hop : op.WellFormed) (hrange : op.InRange) :
    scan .start op.wire = some (.start, [op.event]) := by
  obtain ⟨hsid, harg, hdata⟩ := hrange
  have hsafe : op.data.length ≤ 2 ^ 53 := by omega
  cases op with
  | info arg =>
      have hkey : scan .start (word ['I', 'N', 'F', 'O', ' ']) = some (.op .opInfoSpc 0, []) := rfl
      have hword := scan_line .opInfoSpc 0 (fun _ => rfl) hop harg
      have hnl : scan (.arg .info arg true) [cc '\n'] =
          some (.start, [⟨.info, none, some arg⟩]) := rfl
      simpa [ServerOp.wire, ServerOp.argText, ServerOp.event, crlf] using
        scan_append hkey (scan_append hword hnl)
  | err arg =>
      have hkey : scan .start (word ['-', 'E', 'R', 'R', ' ']) =
          some (.op .opMinusErrSpc 0, []) := rfl
      have hword := scan_line .opMinusErrSpc 0 (fun _ => rfl) hop harg
      have hnl : scan (.arg .err arg true) [cc '\n'] =
          some (.start, [⟨.err, none, some arg⟩]) := rfl
      simpa [ServerOp.wire, ServerOp.argText, ServerOp.event, crlf] using
        scan_append hkey (scan_append hword hnl)
  | msg subject sid reply data =>
      have hkey : scan .start (word ['M', 'S', 'G', ' ']) = some (.op .opMsgSpc (-1), []) := rfl
      have hnames := isName_of_mem_messageArgs sid [data.length] hop.1 hop.2
      have hargs := argsOf_msg (splitArgs_joinArgs hnames) hsid hsafe
      have hmsg := scan_message (isLine_joinArgs (List.cons_ne_nil _ _) hnames) harg hargs rfl hdata
      simpa [ServerOp.wire, ServerOp.argText, ServerOp.event, messageArgs] using
        scan_append hkey hmsg
  | hmsg subject sid reply hdr data =>
      have hkey : scan .start (word ['H', 'M', 'S', 'G', ' ']) = some (.op .opMsgSpc 0, []) := rfl
      have hnames := isName_of_mem_messageArgs sid [hdr, data.length] hop.1 hop.2.1
      have hargs := argsOf_hmsg (splitArgs_joinArgs hnames) hsid hop.2.2 hsafe
      have hmsg := scan_message (isLine_joinArgs (List.cons_ne_nil _ _) hnames) harg hargs rfl hdata
      simpa [ServerOp.wire, ServerOp.argText, ServerOp.event, messageArgs] using
        scan_append hkey hmsg
  | ping => rfl
  | pong => rfl
  | ok => rfl

/-- The scanner reads any number of operations. -/
theorem scan_wires {ops : List ServerOp} (h : ∀ op ∈ ops, op.WellFormed ∧ op.InRange) :
    scan .start (ops.flatMap ServerOp.wire) = some (.start, ops.map ServerOp.event) := by
  induction ops with
  | nil => rfl
  | cons op ops ih =>
      obtain ⟨hop, hrange⟩ := h op List.mem_cons_self
      exact scan_append (scan_wire hop hrange)
        (ih (fun o ho => h o (List.mem_cons_of_mem op ho)))

/-! ## The parser -/

/-- However the operations are cut into chunks, a new parser does not throw, pushes their events
in order and ends between two operations without a buffer in use. -/
def ParsedExactly (ops : List ServerOp) : Prop :=
  ∀ chunks : List Bytes, (∀ chunk ∈ chunks, chunk ≠ []) →
    chunks.flatten = ops.flatMap ServerOp.wire →
    ∃ p, parseAll collect .new [] chunks = .ok p (ops.map ServerOp.event) ∧
      p.state = .opStart ∧ p.argBuf = none ∧ p.msgBuf = none

/-- **Parsing is exact and does not depend on the chunks.** -/
theorem parse_exact {ops : List ServerOp} (h : ∀ op ∈ ops, op.WellFormed ∧ op.InRange) :
    ParsedExactly ops := by
  intro chunks _ hwire
  have hscan := scan_wires h
  rw [← hwire] at hscan
  obtain ⟨p, hparse, hst, -, harg, hbuf, -⟩ := parseAll_refines (s := []) between_new hscan
  exact ⟨p, hparse, hst, harg, hbuf⟩

/-- Every kind of operation, the payload looking like another operation, in chunks of three
bytes. -/
theorem parse_exact_mixed : ParsedExactly
    [.info [cc '\x7b', cc '\x7d'], .msg [cc 'a'] 7 none (word ['P', 'I', 'N', 'G', '\r', '\n']),
      .hmsg [cc 'a'] 8 (some [cc 'r']) 1 [cc 'h', cc 'd'], .ping, .pong, .ok, .err [cc 'e']] :=
  parse_exact (by decide)

/-- A payload that is cut behind its control line and exceeds the limit of the buffer. -/
theorem parse_throws {p : Parser} {s : List ParserEvent} {buf : Bytes} (hst : p.state = .msgPayload)
    (hbuf : p.msgBuf = some (.new [])) (hsize : (maxSize : Int) < p.ma.size)
    (hlen : p.ma.size ≤ buf.length) :
    parse collect p s buf =
      .throw p s (.buffer "The buffer cannot be grown beyond the maximum size.") := by
  obtain ⟨n, hn⟩ : ∃ n : Nat, p.ma.size = n := ⟨p.ma.size.toNat, by omega⟩
  have hopen : ¬ p.ma.size ≤ ((DenoBuffer.new []).length : Int) := by
    rw [hn]
    show ¬ (n : Int) ≤ 0
    omega
  have hcopy : min (p.ma.size - (DenoBuffer.new []).length).toNat (buf.length - 0) = n := by
    rw [hn]
    show min ((n : Int) - 0).toNat (buf.length - 0) = n
    omega
  have hwrite := DenoBuffer.write_throws (subarray buf 0 (0 + n)) (by
    rw [length_subarray (by omega)]
    omega)
  cases hb : buf with
  | nil =>
      rw [hb] at hlen
      simp only [List.length_nil] at hlen
      omega
  | cons b bs =>
      have hturn : parseByte collect p s buf 0 b =
          .throw p s (.buffer "The buffer cannot be grown beyond the maximum size.") := by
        simp only [parseByte, hst, payload, hbuf, if_neg hopen, hcopy]
        rw [if_pos (by omega), hwrite]
        rfl
      rw [hb] at hturn
      simp only [parse, List.length_cons, parseLoop, List.getElem?_cons_zero, hturn]

/-- A payload of `2 ^ 32` bytes is refused where its control line is a chunk of its own. -/
theorem not_parsedExactly_of_length {data : Bytes} (hlen : data.length = 4294967296) :
    ¬ ParsedExactly [.msg [cc 'a'] 1 none data] := by
  intro h
  have hsid : decimal 1 = word ['1'] := rfl
  have hsize : decimal 4294967296 = word ['4', '2', '9', '4', '9', '6', '7', '2', '9', '6'] := rfl
  obtain ⟨line, hline⟩ : ∃ line, line = word
      ['M', 'S', 'G', ' ', 'a', ' ', '1', ' ', '4', '2', '9', '4', '9', '6', '7', '2', '9', '6',
        '\r', '\n'] := ⟨_, rfl⟩
  obtain ⟨p₁, hparse₁, hst, hbuf, hma⟩ : ∃ p, parse collect .new [] line = .ok p [] ∧
      p.state = .msgPayload ∧ p.msgBuf = some (.new []) ∧ p.ma.size = 4294967296 := by
    rw [hline]
    set_option maxRecDepth 4000 in exact ⟨_, rfl, rfl, rfl, rfl⟩
  obtain ⟨p, hparse, -⟩ := h [line, data ++ crlf] (by simp [hline, word, crlf])
    (by simp [ServerOp.wire, ServerOp.argText, messageArgs, hlen, hsid, hsize, hline,
      word, joinArgs, crlf])
  have hthrow := parse_throws (s := []) hst hbuf
    (by
      rw [hma]
      decide)
    (show p₁.ma.size ≤ ((data ++ crlf).length : Int) by
      rw [hma, List.length_append, hlen]
      decide)
  simp only [parseAll, hparse₁, hthrow] at hparse
  cases hparse

/-- A subscription id the number format does not hold comes out as another one. -/
theorem not_parsedExactly_of_sid : ¬ ParsedExactly [.msg [cc 'a'] 9007199254740993 none []] := by
  intro h
  obtain ⟨p, hparse, -⟩ := h [(ServerOp.msg [cc 'a'] 9007199254740993 none []).wire]
    (by simp [ServerOp.wire, crlf]) (by simp)
  have hscan : scan .start (ServerOp.msg [cc 'a'] 9007199254740993 none []).wire =
      some (.start, [(ServerOp.msg [cc 'a'] 9007199254740992 none []).event]) := by
    decide +kernel
  obtain ⟨p', hparse', -⟩ := parse_refines (s := []) between_new hscan
  simp only [parseAll, hparse'] at hparse
  injection hparse with _ hevents
  revert hevents
  decide

/-- **Neither bound can be dropped**: well-formed operations alone are not parsed exactly. -/
theorem not_parse_exact :
    ¬ (∀ ops : List ServerOp, (∀ op ∈ ops, op.WellFormed) → ParsedExactly ops) ∧
    ¬ ParsedExactly [.msg [cc 'a'] 9007199254740993 none []] ∧
    ¬ ParsedExactly [.msg [cc 'a'] 1 none (List.replicate 4294967296 0)] :=
  ⟨fun h => not_parsedExactly_of_sid (h _ (by decide)), not_parsedExactly_of_sid,
    not_parsedExactly_of_length List.length_replicate⟩

end NatsClient.Wire
