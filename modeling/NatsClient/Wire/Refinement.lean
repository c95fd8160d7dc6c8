import NatsClient.Wire.Scanner

/-!
# The parser refines the scanner

`Between p a` relates the parser between two calls of `parse` to a scanner state: the argument or
payload read so far is in the parser's buffer. Inside a call it may still be in the chunk instead
(`InChunk`): the argument from index `as` on, the payload only when it is complete, since the
parser jumps over a payload that lies inside the chunk.

Where the scanner accepts a chunk, a call of `parse` succeeds, pushes the scanner's events and
leaves the parser related to the scanner's state (`parse_refines`); `parseAll_refines` is the same
for any sequence of chunks.
-/

set_option autoImplicit false

namespace NatsClient.Wire

/-- The states of a message operation in front of its argument. -/
def State.beforeMsgArg : State → Bool
  | .opM | .opMs | .opMsg | .opMsgSpc | .opH => true
  | _ => false

/-- The states that read an argument or a payload. -/
def State.reading : State → Bool
  | .msgArg | .minusErrArg | .infoArg | .msgPayload => true
  | _ => false

/-- The parser is in the argument of the given kind. -/
def ArgKind.At (p : Parser) : ArgKind → Prop
  | .msg hdr => p.state = .msgArg ∧ p.msgBuf = none ∧ p.hdr = hdr ∧ p.ma = newMsgArg
  | .err => p.state = .minusErrArg ∧ p.msgBuf = none
  | .info => p.state = .infoArg ∧ p.msgBuf = none

/-- The parser between two calls of `parse`. -/
def Between (p : Parser) : Scan → Prop
  | .op st hdr =>
      p.state = st ∧ st.reading = false ∧ p.argBuf = none ∧ p.msgBuf = none ∧ p.drop = 0 ∧
        (st.beforeMsgArg = true → p.hdr = hdr ∧ p.ma = newMsgArg)
  | .arg kind acc ended =>
      kind.At p ∧ p.drop = ended.toNat ∧ acc.length < bufferLimit ∧
        ∃ a, p.argBuf = some a ∧ a.off = 0 ∧ a.bytes = acc
  | .payload ma acc =>
      p.state = .msgPayload ∧ p.ma = ma ∧ p.drop = 0 ∧
        (acc.length : Int) ≤ ma.size ∧ ma.size < bufferLimit ∧
        ∃ m, p.msgBuf = some m ∧ m.off = 0 ∧ m.bytes = acc

/-- The parser at index `i` of a chunk, the argument or payload being in the chunk itself. -/
def InChunk (buf : Bytes) (i : Nat) (p : Parser) : Scan → Prop
  | .op _ _ => False
  | .arg kind acc ended =>
      kind.At p ∧ p.drop = ended.toNat ∧ acc.length < bufferLimit ∧ p.argBuf = none ∧
        p.as + p.drop ≤ i ∧ subarray buf p.as (i - p.drop) = acc
  | .payload ma acc =>
      p.state = .msgPayload ∧ p.ma = ma ∧ p.drop = 0 ∧
        ma.size = acc.length ∧ ma.size < bufferLimit ∧
        p.msgBuf = none ∧ i = p.as + acc.length ∧ subarray buf p.as i = acc

/-- The parser at index `i` of a chunk. -/
def Inside (buf : Bytes) (i : Nat) (p : Parser) (a : Scan) : Prop :=
  Between p a ∨ InChunk buf i p a

theorem subarray_succ {buf : Bytes} {s i : Nat} {b : UInt8} (hs : s ≤ i) (hb : buf[i]? = some b) :
    subarray buf s (i + 1) = subarray buf s i ++ [b] := by
  have hi : i < buf.length := (List.getElem?_eq_some_iff.1 hb).1
  have hlen : s ≤ (buf.take i).length := by
    rw [List.length_take]
    omega
  unfold subarray
  rw [List.take_add_one, hb, Option.toList_some, List.drop_append_of_le_length hlen]

theorem subarray_self (buf : Bytes) (s : Nat) : subarray buf s s = [] := by
  unfold subarray
  apply List.drop_eq_nil_of_le
  rw [List.length_take]
  omega

theorem subarray_to_end {buf : Bytes} {s e : Nat} (he : buf.length ≤ e) :
    subarray buf s e = buf.drop s := by
  unfold subarray
  rw [List.take_of_length_le he]

theorem length_subarray {buf : Bytes} {s e : Nat} (he : e ≤ buf.length) :
    (subarray buf s e).length = e - s := by
  unfold subarray
  rw [List.length_drop, List.length_take, Nat.min_eq_left he]

/-- The rest of a chunk from `s` on is the part up to `e` and the rest from `e` on. -/
theorem subarray_append_drop {buf : Bytes} {s e : Nat} (hse : s ≤ e) (he : e ≤ buf.length) :
    subarray buf s e ++ buf.drop e = buf.drop s := by
  have hlen : s ≤ (buf.take e).length := by
    rw [List.length_take]
    omega
  unfold subarray
  rw [← List.drop_append_of_le_length hlen, List.take_append_drop]

theorem argsOf_eq_some {hdr : Int} {arg : Bytes} {ma : MsgArg} (h : argsOf hdr arg = some ma) :
    processMsgArgs hdr newMsgArg arg = (ma, none) := by
  unfold argsOf at h
  generalize processMsgArgs hdr newMsgArg arg = r at h
  obtain ⟨ma', label⟩ := r
  cases label with
  | none =>
      simp only [Option.some.injEq] at h
      rw [h]
  | some label => cases h

/-- An accepted argument record has a size. -/
theorem size_nonneg_of_argsOf {hdr : Int} {arg : Bytes} {ma : MsgArg}
    (h : argsOf hdr arg = some ma) : 0 ≤ ma.size := by
  have hargs := argsOf_eq_some h
  have hmsg : ∀ m : MsgArg, checkMsgArgs m = none → 0 ≤ m.size := by
    intro m hm
    by_contra hneg
    unfold checkMsgArgs at hm
    by_cases hsid : m.sid < 0 <;> simp [hsid, show m.size < 0 by omega] at hm
  have hheader : ∀ m : MsgArg, checkHeaderMsgArgs m = none → 0 ≤ m.size := by
    intro m hm
    by_contra hneg
    unfold checkHeaderMsgArgs at hm
    by_cases hsid : m.sid < 0 <;> by_cases hhdr : m.hdr < 0 ∨ m.hdr > m.size <;>
      simp [hsid, hhdr, show m.size < 0 by omega] at hm
  unfold processMsgArgs processHeaderMsgArgs at hargs
  split at hargs <;> split at hargs <;> simp only [Prod.mk.injEq, reduceCtorEq, and_false] at hargs
  · exact hargs.1 ▸ hheader _ hargs.2
  · exact hargs.1 ▸ hheader _ hargs.2
  · exact hargs.1 ▸ hmsg _ hargs.2
  · exact hargs.1 ▸ hmsg _ hargs.2

/-! ## Turns that read one byte -/

section Turns

variable {p : Parser} {s evs : List ParserEvent} {buf : Bytes} {i : Nat} {b : UInt8} {a : Scan}

/-- The turn `t` at index `i` reads one byte, pushes `evs` and ends in the scanner state `a`. -/
def ReadsOne (t : Turn (List ParserEvent)) (s : List ParserEvent) (buf : Bytes) (i : Nat) (a : Scan)
    (evs : List ParserEvent) : Prop :=
  ∃ p, t = .next p (s ++ evs) i ∧ Inside buf (i + 1) p a

/-- No buffer is in use and nothing is to be dropped. -/
def Parser.Idle (p : Parser) : Prop := p.argBuf = none ∧ p.msgBuf = none ∧ p.drop = 0

theorem between_op {st : State} {hdr : Int} (hidle : p.Idle) (hst : p.state = st)
    (hread : st.reading = false) (hmsg : st.beforeMsgArg = true → p.hdr = hdr ∧ p.ma = newMsgArg) :
    Between p (.op st hdr) :=
  ⟨hst, hread, hidle.1, hidle.2.1, hidle.2.2, hmsg⟩

theorem between_start (hidle : p.Idle) (hst : p.state = .opStart) : Between p .start :=
  between_op hidle hst rfl (fun h => by cases h)

theorem scanLetter_eq_some {c : Char} {next : Scan} {r : Scan × List ParserEvent}
    (h : scanLetter c next b = some r) : b = cc c ∧ r = (next, []) := by
  unfold scanLetter at h
  by_cases hb : b = cc c
  · rw [if_pos hb] at h
    exact ⟨hb, (Option.some.inj h).symm⟩
  · rw [if_neg hb] at h
    cases h

theorem letter_reads {upper lower : Char} {next : State} {hdr : Int} (hidle : p.Idle)
    (hread : next.reading = false)
    (hmsg : next.beforeMsgArg = true → p.hdr = hdr ∧ p.ma = newMsgArg)
    (h : scanLetter upper (.op next hdr) b = some (a, evs)) :
    ReadsOne (letter p s buf i upper lower next b) s buf i a evs := by
  obtain ⟨hb, hr⟩ := scanLetter_eq_some h
  obtain ⟨rfl, rfl⟩ := Prod.mk.inj hr
  refine ⟨{ p with state := next }, ?_, Or.inl (between_op hidle rfl hread hmsg)⟩
  simp only [letter, hb, true_or, if_true, List.append_nil]

theorem blank_reads {next : State} {hdr : Int} (hidle : p.Idle)
    (hread : next.reading = false)
    (hmsg : next.beforeMsgArg = true → p.hdr = hdr ∧ p.ma = newMsgArg)
    (h : scanLetter ' ' (.op next hdr) b = some (a, evs)) :
    ReadsOne (blank p s buf i next b) s buf i a evs := by
  obtain ⟨hb, hr⟩ := scanLetter_eq_some h
  obtain ⟨rfl, rfl⟩ := Prod.mk.inj hr
  refine ⟨{ p with state := next }, ?_, Or.inl (between_op hidle rfl hread hmsg)⟩
  simp only [blank, hb, true_or, if_true, List.append_nil]

/-- The first byte of an argument stays in the chunk. -/
theorem blanks_reads {next : State} {kind : ArgKind} (hb : buf[i]? = some b) (hidle : p.Idle)
    (hkind : kind.At { p with state := next, as := i })
    (h : scanFirst kind b = some (a, evs)) :
    ReadsOne (blanks p s i next b) s buf i a evs := by
  unfold scanFirst at h
  by_cases hsep : isSeparator b = true
  · rw [if_pos hsep] at h
    cases h
  · rw [if_neg hsep] at h
    obtain ⟨rfl, rfl⟩ := Prod.mk.inj (Option.some.inj h)
    have hnot : ¬ (b = cc ' ' ∨ b = cc '\t') := by
      rintro (rfl | rfl) <;> exact hsep rfl
    obtain ⟨harg, -, hdrop⟩ := hidle
    refine ⟨{ p with state := next, as := i }, ?_, Or.inr ⟨hkind, hdrop, ?_, harg, ?_, ?_⟩⟩
    · simp only [blanks, if_neg hnot, List.append_nil]
    · show 1 < bufferLimit
      unfold bufferLimit
      omega
    · show i + p.drop ≤ i + 1
      omega
    · show subarray buf i (i + 1 - p.drop) = [b]
      rw [hdrop, Nat.sub_zero, subarray_succ (Nat.le_refl i) hb, subarray_self, List.nil_append]

theorem endOfWord_reads {st : State} {kind : Kind} (hidle : p.Idle) (hst : p.state = st)
    (hread : st.reading = false) (hmsg : st.beforeMsgArg = false)
    (h : scanWordEnd st kind b = some (a, evs)) :
    ReadsOne (endOfWord collect p s i kind b) s buf i a evs := by
  obtain ⟨harg, hbuf, hdrop⟩ := hidle
  unfold scanWordEnd at h
  by_cases hcr : b = cc '\r'
  · rw [if_pos hcr] at h
    obtain ⟨rfl, rfl⟩ := Prod.mk.inj (Option.some.inj h)
    have hnl : ¬ b = cc '\n' := by
      rw [hcr]
      decide
    refine ⟨p, ?_, Or.inl (between_op ⟨harg, hbuf, hdrop⟩ hst hread (fun hm => ?_))⟩
    · simp only [endOfWord, if_neg hnl, List.append_nil]
    · rw [hmsg] at hm
      cases hm
  · rw [if_neg hcr] at h
    by_cases hnl : b = cc '\n'
    · rw [if_pos hnl] at h
      obtain ⟨rfl, rfl⟩ := Prod.mk.inj (Option.some.inj h)
      refine ⟨{ p with drop := 0, state := .opStart }, ?_,
        Or.inl (between_start ⟨harg, hbuf, rfl⟩ rfl)⟩
      simp only [endOfWord, if_pos hnl, push, collect]
    · rw [if_neg hnl] at h
      cases h

/-- The first byte of an operation. -/
theorem opStart_reads (hidle : p.Idle) (hst : p.state = .opStart)
    (h : scanOp .opStart 0 b = some (a, evs)) :
    ReadsOne (parseByte collect p s buf i b) s buf i a evs := by
  have hidle' : ∀ st hdr ma, Parser.Idle { p with state := st, hdr := hdr, ma := ma } :=
    fun _ _ _ => hidle
  have hdone : ∀ st : State, st.reading = false → st.beforeMsgArg = false →
      a = .op st 0 → evs = [] → parseByte collect p s buf i b = .next { p with state := st } s i →
      ReadsOne (parseByte collect p s buf i b) s buf i a evs := by
    rintro st hread hmsg rfl rfl hturn
    refine ⟨{ p with state := st }, by rw [hturn, List.append_nil], Or.inl ?_⟩
    exact between_op (hidle' st p.hdr p.ma) rfl hread (fun hm => by rw [hmsg] at hm; cases hm)
  simp only [scanOp] at h
  split_ifs at h with hM hH hP hplus hminus hI
  all_goals obtain ⟨rfl, rfl⟩ := Prod.mk.inj (Option.some.inj h)
  · refine ⟨{ p with state := .opM, hdr := -1, ma := newMsgArg }, ?_,
      Or.inl (between_op (hidle' _ _ _) rfl rfl (fun _ => ⟨rfl, rfl⟩))⟩
    simp only [parseByte, hst, hM, true_or, if_true, List.append_nil]
  · refine ⟨{ p with state := .opH, hdr := 0, ma := newMsgArg }, ?_,
      Or.inl (between_op (hidle' _ _ _) rfl rfl (fun _ => ⟨rfl, rfl⟩))⟩
    subst hH
    simp [parseByte, hst, cc]
  · exact hdone .opP rfl rfl rfl rfl (by subst hP; simp [parseByte, hst, cc])
  · exact hdone .opPlus rfl rfl rfl rfl (by subst hplus; simp [parseByte, hst, cc])
  · exact hdone .opMinus rfl rfl rfl rfl (by subst hminus; simp [parseByte, hst, cc])
  · exact hdone .opI rfl rfl rfl rfl (by subst hI; simp [parseByte, hst, cc])

/-- A byte of a keyword, of the blanks behind it, or of the end of a payload. -/
theorem op_reads {st : State} {hdr : Int} (hb : buf[i]? = some b) (hp : Between p (.op st hdr))
    (h : scanOp st hdr b = some (a, evs)) :
    ReadsOne (parseByte collect p s buf i b) s buf i a evs := by
  obtain ⟨hst, -, harg, hbuf, hdrop, hmsg⟩ := hp
  have hidle : p.Idle := ⟨harg, hbuf, hdrop⟩
  cases st with
  | opStart => exact opStart_reads hidle hst h
  | opH => simpa only [parseByte, hst] using letter_reads hidle rfl (fun _ => hmsg rfl) h
  | opM => simpa only [parseByte, hst] using letter_reads hidle rfl (fun _ => hmsg rfl) h
  | opMs => simpa only [parseByte, hst] using letter_reads hidle rfl (fun _ => hmsg rfl) h
  | opMsg => simpa only [parseByte, hst] using blank_reads hidle rfl (fun _ => hmsg rfl) h
  | opMsgSpc =>
      simpa only [parseByte, hst] using blanks_reads hb hidle
        (show (ArgKind.msg hdr).At _ from ⟨rfl, hbuf, hmsg rfl⟩) h
  | msgEnd =>
      simp only [scanOp] at h
      by_cases hnl : b = cc '\n'
      · rw [if_pos hnl] at h
        obtain ⟨rfl, rfl⟩ := Prod.mk.inj (Option.some.inj h)
        refine ⟨{ p with drop := 0, as := i + 1, state := .opStart }, ?_,
          Or.inl (between_start ⟨harg, hbuf, rfl⟩ rfl)⟩
        simp only [parseByte, hst, if_pos hnl, List.append_nil]
      · rw [if_neg hnl] at h
        obtain ⟨rfl, rfl⟩ := Prod.mk.inj (Option.some.inj h)
        -- whatever is in front of the line feed is skipped
        refine ⟨p, ?_, Or.inl (between_op hidle hst rfl (fun hm => by cases hm))⟩
        simp only [parseByte, hst, if_neg hnl, List.append_nil]
  | opPlus => simpa only [parseByte, hst] using letter_reads hidle rfl (fun hm => by cases hm) h
  | opPlusO => simpa only [parseByte, hst] using letter_reads hidle rfl (fun hm => by cases hm) h
  | opPlusOk => simpa only [parseByte, hst] using endOfWord_reads hidle hst rfl rfl h
  | opMinus => simpa only [parseByte, hst] using letter_reads hidle rfl (fun hm => by cases hm) h
  | opMinusE => simpa only [parseByte, hst] using letter_reads hidle rfl (fun hm => by cases hm) h
  | opMinusEr => simpa only [parseByte, hst] using letter_reads hidle rfl (fun hm => by cases hm) h
  | opMinusErr => simpa only [parseByte, hst] using blank_reads hidle rfl (fun hm => by cases hm) h
  | opMinusErrSpc =>
      simpa only [parseByte, hst] using blanks_reads hb hidle
        (show ArgKind.err.At _ from ⟨rfl, hbuf⟩) h
  | opP =>
      simp only [scanOp] at h
      by_cases hI : b = cc 'I'
      · rw [if_pos hI] at h
        obtain ⟨rfl, rfl⟩ := Prod.mk.inj (Option.some.inj h)
        refine ⟨{ p with state := .opPi }, ?_,
          Or.inl (between_op hidle rfl rfl (fun hm => by cases hm))⟩
        simp only [parseByte, hst, hI, true_or, if_true, List.append_nil]
      · rw [if_neg hI] at h
        have hO : scanLetter 'O' (.op .opPo 0) b = some (a, evs) := h
        -- the source looks at `I` in both cases before `O`
        have hi : ¬ (b = cc 'I' ∨ b = cc 'i') := by
          rw [(scanLetter_eq_some hO).1]
          decide
        simpa only [parseByte, hst, if_neg hi] using
          letter_reads hidle rfl (fun hm => by cases hm) hO
  | opPo => simpa only [parseByte, hst] using letter_reads hidle rfl (fun hm => by cases hm) h
  | opPon => simpa only [parseByte, hst] using letter_reads hidle rfl (fun hm => by cases hm) h
  | opPong => simpa only [parseByte, hst] using endOfWord_reads hidle hst rfl rfl h
  | opPi => simpa only [parseByte, hst] using letter_reads hidle rfl (fun hm => by cases hm) h
  | opPin => simpa only [parseByte, hst] using letter_reads hidle rfl (fun hm => by cases hm) h
  | opPing => simpa only [parseByte, hst] using endOfWord_reads hidle hst rfl rfl h
  | opI => simpa only [parseByte, hst] using letter_reads hidle rfl (fun hm => by cases hm) h
  | opIn => simpa only [parseByte, hst] using letter_reads hidle rfl (fun hm => by cases hm) h
  | opInf => simpa only [parseByte, hst] using letter_reads hidle rfl (fun hm => by cases hm) h
  | opInfo => simpa only [parseByte, hst] using blank_reads hidle rfl (fun hm => by cases hm) h
  | opInfoSpc =>
      simpa only [parseByte, hst] using blanks_reads hb hidle
        (show ArgKind.info.At _ from ⟨rfl, hbuf⟩) h
  | msgArg | minusErrArg | infoArg | msgPayload => cases h

/-! ## Arguments -/

/-- A byte of an argument that does not end it goes to the argument buffer, if there is one. -/
theorem argument_reads {kind : ArgKind} {acc : Bytes} {ended : Bool}
    {atEnd : Turn (List ParserEvent)} (hb : buf[i]? = some b)
    (hp : Inside buf i p (.arg kind acc ended)) (hnl : b ≠ cc '\n')
    (h : scanByte (.arg kind acc ended) b = some (a, evs)) :
    ReadsOne (argument p s i b atEnd) s buf i a evs := by
  cases ended with
  | true =>
      simp only [scanByte, if_neg hnl] at h
      cases h
  | false =>
      simp only [scanByte] at h
      by_cases hcr : b = cc '\r'
      · rw [if_pos hcr] at h
        obtain ⟨rfl, rfl⟩ := Prod.mk.inj (Option.some.inj h)
        -- the carriage return is left out of the argument at its end
        refine ⟨{ p with drop := 1 }, ?_, ?_⟩
        · simp only [argument, if_pos hcr, List.append_nil]
        · rcases hp with ⟨hat, -, hlen, hbuf⟩ | ⟨hat, hdrop, hlen, harg, has, hacc⟩
          · exact Or.inl ⟨by cases kind <;> exact hat, rfl, hlen, hbuf⟩
          · have hdrop0 : p.drop = 0 := hdrop
            rw [hdrop0, Nat.sub_zero] at hacc
            refine Or.inr ⟨by cases kind <;> exact hat, rfl, hlen, harg, ?_, hacc⟩
            show p.as + 1 ≤ i + 1
            omega
      · rw [if_neg hcr, if_neg hnl] at h
        by_cases hlim : acc.length + 1 < bufferLimit
        · rw [if_pos hlim] at h
          obtain ⟨rfl, rfl⟩ := Prod.mk.inj (Option.some.inj h)
          have hlen : (acc ++ [b]).length < bufferLimit := by
            rw [List.length_append]
            exact hlim
          rcases hp with ⟨hat, hdrop, -, m, hm, hoff, hbytes⟩ | ⟨hat, hdrop, -, harg, has, hacc⟩
          · -- an argument of an earlier chunk goes on in its buffer
            have hroom : m.length + [b].length < 2 ^ 31 := by
              rw [← m.length_bytes, hbytes]
              exact hlim
            obtain ⟨m', hwrite, hoff', hbytes'⟩ := m.write_spec [b] hoff hroom
            refine ⟨{ p with argBuf := some m' }, ?_, Or.inl ⟨?_, hdrop, hlen, m', rfl, hoff', ?_⟩⟩
            · simp only [argument, if_neg hcr, if_neg hnl, hm, DenoBuffer.writeByte, hwrite, wrote,
                List.append_nil]
            · cases kind <;> exact hat
            · rw [hbytes', hbytes]
          · -- one of this chunk is read from where it starts
            have hdrop0 : p.drop = 0 := hdrop
            rw [hdrop0, Nat.sub_zero] at hacc
            refine ⟨p, ?_, Or.inr ⟨hat, hdrop, hlen, harg, by omega, ?_⟩⟩
            · simp only [argument, if_neg hcr, if_neg hnl, harg, List.append_nil]
            · rw [hdrop0, Nat.sub_zero, subarray_succ (by omega) hb, hacc]
        · rw [if_neg hlim] at h
          cases h

/-- The argument is read from where it is. -/
theorem argumentBytes_eq {kind : ArgKind} {acc : Bytes} {ended : Bool}
    (hp : Inside buf i p (.arg kind acc ended)) : p.argumentBytes buf i = acc := by
  unfold Parser.argumentBytes
  rcases hp with ⟨-, -, -, m, hm, -, hbytes⟩ | ⟨-, -, -, harg, -, hacc⟩
  · rw [hm]
    exact hbytes
  · rw [harg]
    exact hacc

theorem at_of_inside {kind : ArgKind} {acc : Bytes} {ended : Bool}
    (hp : Inside buf i p (.arg kind acc ended)) : kind.At p := by
  rcases hp with hp | hp
  · exact hp.1
  · exact hp.1

/-- The line feed behind an `INFO` or `-ERR` argument. -/
theorem endOfLine_reads {kind : Kind} {akind : ArgKind} {acc : Bytes} {ended : Bool}
    (hp : Inside buf i p (.arg akind acc ended)) (hbuf : p.msgBuf = none) :
    ReadsOne (endOfLine collect p s buf i kind) s buf i .start [⟨kind, none, some acc⟩] := by
  refine ⟨{ p with argBuf := none, drop := 0, as := i + 1, state := .opStart }, ?_,
    Or.inl (between_start ⟨rfl, hbuf, rfl⟩ rfl)⟩
  simp only [endOfLine, push, collect, argumentBytes_eq hp]

/-- One byte of an argument, the line feed behind a message's argument excepted. -/
theorem arg_reads {kind : ArgKind} {acc : Bytes} {ended : Bool} (hb : buf[i]? = some b)
    (hp : Inside buf i p (.arg kind acc ended)) (hmsg : ∀ hdr, kind = .msg hdr → b ≠ cc '\n')
    (h : scanByte (.arg kind acc ended) b = some (a, evs)) :
    ReadsOne (parseByte collect p s buf i b) s buf i a evs := by
  have hat := at_of_inside hp
  have hend : ∀ {t}, b = cc '\n' → argument p s i b t = t := by
    rintro t rfl
    rw [argument, if_neg (by decide), if_pos rfl]
  have hline : b = cc '\n' → ended = true ∧ scanArgEnd kind acc = some (a, evs) := by
    rintro rfl
    cases ended with
    | false =>
        have hcr : ¬ cc '\n' = cc '\r' := by decide
        simp only [scanByte, if_neg hcr, if_true] at h
        cases h
    | true => exact ⟨rfl, h⟩
  cases kind with
  | msg hdr =>
      simpa only [parseByte, hat.1] using argument_reads hb hp (hmsg hdr rfl) h
  | err =>
      simp only [parseByte, hat.1]
      by_cases hnl : b = cc '\n'
      · obtain ⟨rfl, rfl⟩ := Prod.mk.inj (Option.some.inj (hline hnl).2)
        rw [hend hnl]
        exact endOfLine_reads hp hat.2
      · exact argument_reads hb hp hnl h
  | info =>
      simp only [parseByte, hat.1]
      by_cases hnl : b = cc '\n'
      · obtain ⟨rfl, rfl⟩ := Prod.mk.inj (Option.some.inj (hline hnl).2)
        rw [hend hnl]
        exact endOfLine_reads hp hat.2
      · exact argument_reads hb hp hnl h

/-! ## The end of a chunk -/

/-- The clone has the same contents. -/
theorem cloneMsgArg_eq (p : Parser) : ∃ arg, p.cloneMsgArg = { p with argBuf := some arg } := by
  obtain ⟨-, -, -, -, ⟨subject, reply, sid, hdr, size⟩, -, -⟩ := p
  cases reply <;> simp [Parser.cloneMsgArg, subarray]

/-- A payload that is not in a buffer is copied, and so is the argument record. -/
theorem between_payload_endOfChunk {ma : MsgArg} {acc : Bytes} (hst : p.state = .msgPayload)
    (hma : p.ma = ma) (hdrop : p.drop = 0) (hbuf : p.msgBuf = none) (hacc : buf.drop p.as = acc)
    (hsize : (acc.length : Int) ≤ ma.size) (hlim : ma.size < bufferLimit) :
    Between (p.endOfChunk buf i) (.payload ma acc) := by
  have hcopied : ∃ arg, p.endOfChunk buf i =
      { p with argBuf := arg, msgBuf := some (.new (buf.drop p.as)) } := by
    cases harg : p.argBuf with
    | none =>
        obtain ⟨m, hclone⟩ := cloneMsgArg_eq p
        refine ⟨some m, ?_⟩
        simp [Parser.endOfChunk, hst, hbuf, harg, hclone]
    | some m =>
        refine ⟨some m, ?_⟩
        simp [Parser.endOfChunk, hst, hbuf, harg]
  obtain ⟨arg, heq⟩ := hcopied
  rw [heq]
  refine ⟨hst, hma, hdrop, hsize, hlim, _, rfl, rfl, ?_⟩
  rw [DenoBuffer.bytes_new, hacc]

/-- What is still in the chunk when it ends is copied. -/
theorem between_endOfChunk (hp : Inside buf i p a) (hi : buf.length ≤ i) :
    Between (p.endOfChunk buf i) a := by
  cases a with
  | op st hdr =>
      rcases hp with hp | hp
      · obtain ⟨hst, hread, hrest⟩ := hp
        have hstate : p.state ≠ .msgPayload ∧
            ¬ (p.state = .msgArg ∨ p.state = .minusErrArg ∨ p.state = .infoArg) := by
          rw [hst]
          constructor
          · rintro rfl
            cases hread
          · rintro (rfl | rfl | rfl) <;> cases hread
        have hsame : p.endOfChunk buf i = p := by
          simp [Parser.endOfChunk, hstate.1, hstate.2]
        rw [hsame]
        exact ⟨hst, hread, hrest⟩
      · exact hp.elim
  | arg kind acc ended =>
      have hstate : p.state ≠ .msgPayload ∧
          (p.state = .msgArg ∨ p.state = .minusErrArg ∨ p.state = .infoArg) := by
        have hat := at_of_inside hp
        cases kind <;> rw [hat.1] <;> decide
      rcases hp with hp | ⟨hat, hdrop, hlen, harg, has, hacc⟩
      · -- it has a buffer already
        obtain ⟨m, hm, -⟩ := hp.2.2.2
        have hsame : p.endOfChunk buf i = p := by
          simp [Parser.endOfChunk, hm, hstate.1]
        rw [hsame]
        exact hp
      · -- its bytes so far are in the chunk, and are copied
        have hcopied : p.endOfChunk buf i =
            { p with argBuf := some (.new (subarray buf p.as (i - p.drop))) } := by
          simp [Parser.endOfChunk, harg, hstate.1, hstate.2]
        rw [hcopied]
        refine ⟨by cases kind <;> exact hat, hdrop, hlen, _, rfl, rfl, ?_⟩
        rw [DenoBuffer.bytes_new, hacc]
  | payload ma acc =>
      rcases hp with hp | ⟨hst, hma, hdrop, hsize, hlim, hbuf, -, hacc⟩
      · obtain ⟨m, hm, -⟩ := hp.2.2.2.2.2
        have hsame : p.endOfChunk buf i = p := by
          simp [Parser.endOfChunk, hm, hp.1]
        rw [hsame]
        exact hp
      · rw [subarray_to_end hi] at hacc
        exact between_payload_endOfChunk hst hma hdrop hbuf hacc (by omega) hlim

/-! ## Payloads -/

/-- A turn that may read several bytes: up to an index where the scanner goes on, or to the end of
the chunk, behind which the counter may lie. -/
def Reads (t : Turn (List ParserEvent)) (s : List ParserEvent) (buf : Bytes) (i : Nat) (a : Scan)
    (evs : List ParserEvent) : Prop :=
  ∃ p j evs₁, t = .next p (s ++ evs₁) j ∧ i ≤ j ∧
    ((∃ a₁ evs₂, Inside buf (j + 1) p a₁ ∧ scan a₁ (buf.drop (j + 1)) = some (a, evs₂) ∧
        evs = evs₁ ++ evs₂) ∨
      (buf.length ≤ j + 1 ∧ evs = evs₁ ∧ Between (p.endOfChunk buf (j + 1)) a))

/-- A payload of known size reaches `e`, or the end of the chunk. -/
theorem scan_payload_prefix {ma : MsgArg} (acc : Bytes) {e : Nat} (hie : i ≤ e)
    (he : e ≤ buf.length) (hsize : ((acc.length + (e - i) : Nat) : Int) ≤ ma.size)
    (h : scan (.payload ma acc) (buf.drop i) = some (a, evs)) :
    scan (.payload ma (acc ++ subarray buf i e)) (buf.drop e) = some (a, evs) := by
  rw [← subarray_append_drop hie he] at h
  obtain ⟨a₁, evs₁, evs₂, h₁, h₂, rfl⟩ := scan_append_inv h
  have hread := scan_payload ma acc (subarray buf i e) (by
    rw [length_subarray he]
    exact hsize)
  rw [hread] at h₁
  obtain ⟨rfl, rfl⟩ := Prod.mk.inj (Option.some.inj h₁)
  exact h₂

/-- The line feed behind a message's argument: the counter jumps over the payload. -/
theorem msgArg_reads {hdr : Int} {acc : Bytes} (hb : buf[i]? = some (cc '\n'))
    (hp : Inside buf i p (.arg (.msg hdr) acc true))
    (h : scan (.arg (.msg hdr) acc true) (buf.drop i) = some (a, evs)) :
    Reads (parseByte collect p s buf i (cc '\n')) s buf i a evs := by
  obtain ⟨hst, hbuf, hhdr, hma⟩ := at_of_inside hp
  have hi : i < buf.length := (List.getElem?_eq_some_iff.1 hb).1
  have hdrop : buf.drop i = cc '\n' :: buf.drop (i + 1) := by
    rw [List.drop_eq_getElem_cons hi, (List.getElem?_eq_some_iff.1 hb).2]
  rw [hdrop] at h
  obtain ⟨a₁, evs₁, evs₂, hbyte, hrest, rfl⟩ := scan_cons_inv h
  cases hargs : argsOf hdr acc with
  | none =>
      have hend : scanByte (.arg (.msg hdr) acc true) (cc '\n') = none := by
        simp only [scanByte, if_true, scanArgEnd, hargs]
      rw [hend] at hbyte
      cases hbyte
  | some ma =>
      have hend : (if ma.size < bufferLimit then some (Scan.payload ma [], []) else none) =
          some (a₁, evs₁) := by
        simpa only [scanByte, if_true, scanArgEnd, hargs] using hbyte
      by_cases hlim : ma.size < bufferLimit
      · rw [if_pos hlim] at hend
        obtain ⟨rfl, rfl⟩ := Prod.mk.inj (Option.some.inj hend)
        have hpos := size_nonneg_of_argsOf hargs
        refine ⟨{ p with ma := ma, drop := 0, as := i + 1, state := .msgPayload },
          i + 1 + ma.size.toNat - 1, [], ?_, by omega, ?_⟩
        · have hcr : ¬ cc '\n' = cc '\r' := by decide
          simp only [parseByte, hst, argument, if_neg hcr, if_true, argumentBytes_eq hp, hhdr, hma,
            argsOf_eq_some hargs, List.append_nil]
        · have hj : i + 1 + ma.size.toNat - 1 + 1 = i + 1 + ma.size.toNat := by omega
          rw [hj]
          by_cases hin : i + 1 + ma.size.toNat ≤ buf.length
          · -- the payload lies inside the chunk
            refine Or.inl ⟨.payload ma (subarray buf (i + 1) (i + 1 + ma.size.toNat)), evs₂,
              Or.inr ⟨rfl, rfl, rfl, ?_, hlim, hbuf, ?_, rfl⟩, ?_, rfl⟩
            · rw [length_subarray hin]
              omega
            · show i + 1 + ma.size.toNat = i + 1 + _
              rw [length_subarray hin]
              omega
            · exact scan_payload_prefix [] (by omega) hin (by
                simp only [List.length_nil]
                omega) hrest
          · -- the payload is cut
            have hcut := scan_payload_prefix [] (e := buf.length) (by omega)
              (Nat.le_refl _) (by
                simp only [List.length_nil]
                omega) hrest
            rw [List.drop_length, subarray_to_end (Nat.le_refl _)] at hcut
            obtain ⟨rfl, rfl⟩ := Prod.mk.inj (Option.some.inj hcut)
            refine Or.inr ⟨by omega, rfl, ?_⟩
            refine between_payload_endOfChunk rfl rfl rfl hbuf rfl ?_ hlim
            simp only [List.nil_append, List.length_drop]
            omega
      · rw [if_neg hlim] at hend
        cases hend

/-- A complete payload is pushed; the byte behind it is dropped. -/
theorem payload_complete_reads {ma : MsgArg} {acc : Bytes} (hp : Inside buf i p (.payload ma acc))
    (hfull : ma.size ≤ acc.length) :
    ReadsOne (parseByte collect p s buf i b) s buf i (.op .msgEnd 0)
      [⟨.msg, some ma, some acc⟩] := by
  refine ⟨{ p with argBuf := none, msgBuf := none, state := .msgEnd }, ?_, Or.inl ?_⟩
  · rcases hp with ⟨hst, rfl, -, -, -, m, hm, -, hbytes⟩ | ⟨hst, rfl, -, -, -, hbuf, hi, hacc⟩
    · have hlen : p.ma.size ≤ (m.length : Int) := by
        rw [← m.length_bytes, hbytes]
        exact hfull
      simp only [parseByte, hst, payload, hm, if_pos hlen, push, collect, hbytes]
    · have hlen : p.ma.size ≤ (i : Int) - p.as := by omega
      simp only [parseByte, hst, payload, hbuf, if_pos hlen, push, collect, hacc]
  · have hdrop : p.drop = 0 := by
      rcases hp with hp | hp
      · exact hp.2.2.1
      · exact hp.2.2.1
    exact between_op ⟨rfl, rfl, hdrop⟩ rfl rfl (fun hm => by cases hm)

/-- The bytes of a payload that was cut go to the message buffer, as many as the chunk has. -/
theorem payload_copy_reads {ma : MsgArg} {acc : Bytes} (hi : i < buf.length)
    (hp : Between p (.payload ma acc)) (hopen : ¬ ma.size ≤ acc.length)
    (h : scan (.payload ma acc) (buf.drop i) = some (a, evs)) :
    Reads (parseByte collect p s buf i b) s buf i a evs := by
  obtain ⟨hst, hma, hdrop, -, hlim, m, hm, hoff, hbytes⟩ := hp
  have hmlen : m.length = acc.length := by rw [← m.length_bytes, hbytes]
  obtain ⟨n, hn⟩ : ∃ n, n = min (p.ma.size - m.length).toNat (buf.length - i) := ⟨_, rfl⟩
  have hpos : 0 < n := by
    rw [hn, hma, hmlen]
    omega
  have hroom : m.length + (subarray buf i (i + n)).length < 2 ^ 31 := by
    rw [length_subarray (by omega), hmlen]
    unfold bufferLimit at hlim
    rw [hma, hmlen] at hn
    omega
  obtain ⟨m', hwrite, hoff', hbytes'⟩ := m.write_spec (subarray buf i (i + n)) hoff hroom
  have hj : i + n - 1 + 1 = i + n := by omega
  refine ⟨{ p with msgBuf := some m' }, i + n - 1, [], ?_, by omega, Or.inl ?_⟩
  · have hfull : ¬ p.ma.size ≤ (m.length : Int) := by
      rw [hma, hmlen]
      exact hopen
    simp only [parseByte, hst, payload, hm, if_neg hfull, ← hn, if_pos hpos, hwrite, wrote,
      List.append_nil]
  · rw [hma, hmlen] at hn
    rw [hj]
    refine ⟨.payload ma (acc ++ subarray buf i (i + n)), evs,
      Or.inl ⟨hst, hma, hdrop, ?_, hlim, m', rfl, hoff', ?_⟩, ?_, rfl⟩
    · rw [List.length_append, length_subarray (by omega)]
      omega
    · rw [hbytes', hbytes]
    · exact scan_payload_prefix acc (by omega) (by omega) (by omega) h

/-! ## Runs -/

theorem Reads.of_readsOne {t : Turn (List ParserEvent)} {a₀ : Scan} (hb : buf[i]? = some b)
    (h : scan a₀ (buf.drop i) = some (a, evs))
    (hturn : ∀ {a₁ evs₁}, scanByte a₀ b = some (a₁, evs₁) → ReadsOne t s buf i a₁ evs₁) :
    Reads t s buf i a evs := by
  obtain ⟨hi, hget⟩ := List.getElem?_eq_some_iff.1 hb
  rw [List.drop_eq_getElem_cons hi, hget] at h
  obtain ⟨a₁, evs₁, evs₂, hbyte, hrest, rfl⟩ := scan_cons_inv h
  obtain ⟨p₁, ht, hp₁⟩ := hturn hbyte
  exact ⟨p₁, i, evs₁, ht, Nat.le_refl i, Or.inl ⟨a₁, evs₂, hp₁, hrest, rfl⟩⟩

/-- **One turn of the loop.** -/
theorem parseByte_reads {a₀ : Scan} (hb : buf[i]? = some b) (hp : Inside buf i p a₀)
    (h : scan a₀ (buf.drop i) = some (a, evs)) :
    Reads (parseByte collect p s buf i b) s buf i a evs := by
  cases a₀ with
  | op st hdr =>
      rcases hp with hp | hp
      · exact Reads.of_readsOne hb h (op_reads hb hp)
      · exact hp.elim
  | arg kind acc ended =>
      by_cases hjump : ∃ hdr, kind = .msg hdr ∧ b = cc '\n' ∧ ended = true
      · obtain ⟨hdr, rfl, rfl, rfl⟩ := hjump
        exact msgArg_reads hb hp h
      · refine Reads.of_readsOne hb h (fun hbyte => arg_reads hb hp ?_ hbyte)
        rintro hdr rfl rfl
        cases ended with
        | true => exact hjump ⟨hdr, rfl, rfl, rfl⟩
        | false =>
            have hcr : ¬ cc '\n' = cc '\r' := by decide
            simp only [scanByte, if_neg hcr, if_true] at hbyte
            cases hbyte
  | payload ma acc =>
      by_cases hfull : ma.size ≤ acc.length
      · refine Reads.of_readsOne hb h (fun hbyte => ?_)
        simp only [scanByte, if_pos hfull] at hbyte
        obtain ⟨rfl, rfl⟩ := Prod.mk.inj (Option.some.inj hbyte)
        exact payload_complete_reads hp hfull
      · rcases hp with hp | hp
        · exact payload_copy_reads (List.getElem?_eq_some_iff.1 hb).1 hp hfull h
        · exact absurd hp.2.2.2.1.le hfull

/-- **The loop**, by induction on its turns. -/
theorem parseLoop_reads {a₀ : Scan} {fuel : Nat} (hfuel : buf.length - i ≤ fuel)
    (hp : Inside buf i p a₀) (h : scan a₀ (buf.drop i) = some (a, evs)) :
    ∃ p' i', parseLoop collect buf fuel p s i = .next p' (s ++ evs) i' ∧
      Between (p'.endOfChunk buf i') a := by
  have hstop : ∀ {p : Parser} {i : Nat} {a₀ : Scan} {evs : List ParserEvent}, buf.length ≤ i →
      Inside buf i p a₀ → scan a₀ (buf.drop i) = some (a, evs) →
      evs = [] ∧ Between (p.endOfChunk buf i) a := by
    intro p i a₀ evs hi hp h
    rw [List.drop_eq_nil_of_le hi] at h
    obtain ⟨rfl, rfl⟩ := Prod.mk.inj (Option.some.inj h)
    exact ⟨rfl, between_endOfChunk hp hi⟩
  induction fuel generalizing p s i a₀ evs with
  | zero =>
      obtain ⟨rfl, hbetween⟩ := hstop (by omega) hp h
      exact ⟨p, i, by simp only [parseLoop, List.append_nil], hbetween⟩
  | succ fuel ih =>
      cases hb : buf[i]? with
      | none =>
          obtain ⟨rfl, hbetween⟩ := hstop (List.getElem?_eq_none_iff.1 hb) hp h
          exact ⟨p, i, by simp only [parseLoop, hb, List.append_nil], hbetween⟩
      | some b =>
          obtain ⟨p₁, j, evs₁, hturn, hij, hnext⟩ := parseByte_reads (s := s) hb hp h
          have hstep : parseLoop collect buf (fuel + 1) p s i =
              parseLoop collect buf fuel p₁ (s ++ evs₁) (j + 1) := by
            simp only [parseLoop, hb, hturn]
          rw [hstep]
          rcases hnext with ⟨a₁, evs₂, hp₁, hrest, rfl⟩ | ⟨hj, rfl, hbetween⟩
          · obtain ⟨p', i', hloop, hbetween⟩ := ih (s := s ++ evs₁) (by omega) hp₁ hrest
            exact ⟨p', i', by rw [hloop, List.append_assoc], hbetween⟩
          · refine ⟨p₁, j + 1, ?_, hbetween⟩
            have hnone : buf[j + 1]? = none := List.getElem?_eq_none_iff.2 hj
            cases fuel <;> simp only [parseLoop, hnone]

/-- **A call of `parse` does what the scanner does on the chunk.** -/
theorem parse_refines {a₀ : Scan} (hp : Between p a₀) (h : scan a₀ buf = some (a, evs)) :
    ∃ p', parse collect p s buf = .ok p' (s ++ evs) ∧ Between p' a := by
  obtain ⟨p', i', hloop, hbetween⟩ :=
    parseLoop_reads (s := s) (i := 0) (Nat.le_refl _) (Or.inl hp) h
  refine ⟨p'.endOfChunk buf i', ?_, hbetween⟩
  rw [Nat.sub_zero] at hloop
  simp only [parse, hloop]

/-- **Successive calls of `parse` do what the scanner does on the concatenation.** -/
theorem parseAll_refines {a₀ : Scan} {chunks : List Bytes} (hp : Between p a₀)
    (h : scan a₀ chunks.flatten = some (a, evs)) :
    ∃ p', parseAll collect p s chunks = .ok p' (s ++ evs) ∧ Between p' a := by
  induction chunks generalizing p s a₀ evs with
  | nil =>
      obtain ⟨rfl, rfl⟩ := Prod.mk.inj (Option.some.inj h)
      exact ⟨p, by simp only [parseAll, List.append_nil], hp⟩
  | cons buf bufs ih =>
      rw [List.flatten_cons] at h
      obtain ⟨a₁, evs₁, evs₂, h₁, h₂, rfl⟩ := scan_append_inv h
      obtain ⟨p₁, hparse, hp₁⟩ := parse_refines (s := s) hp h₁
      obtain ⟨p', hrest, hp'⟩ := ih (s := s ++ evs₁) hp₁ h₂
      refine ⟨p', ?_, hp'⟩
      rw [parseAll, hparse]
      show parseAll collect p₁ (s ++ evs₁) bufs = _
      rw [hrest, List.append_assoc]

end Turns

/-- A new parser is between two operations. -/
theorem between_new : Between .new .start :=
  between_start ⟨rfl, rfl, rfl⟩ rfl

end NatsClient.Wire
