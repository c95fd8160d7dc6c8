import NatsClient.Foundation.FixedWidth
import NatsClient.Foundation.Run
import Mathlib.Data.List.Nodup

/-!
# Unique ids

Model of `nuid.ts`: an id is a prefix of 12 digits that is drawn at random and a sequence number
that is written with 10 digits. `next` adds the increment and draws a new prefix where the number
gets above `maxSeq`, which is `36 ^ 10`, the first number that does not fit. That number itself is
written like `0`, so it makes an id again that `0` made before. A period can begin with `0` when
`next` itself draws the prefix; behind `init` the increment is added first.

What is drawn comes with the calls (`Draw`). Numbers stay below `2 ^ 53`, where the division by 36
and its `Math.floor` are exact.

* `distinct_iff`: when the ids of one prefix are different, which all have 22 digits.
-/

set_option autoImplicit false

namespace NatsClient.Connection

open NatsClient.Foundation

/-- `digits`. -/
def digits : List Char := "0123456789ABCDEFGHIJKLMNOPQRSTUVWXYZ".toList

/-- `base`. -/
def base : Nat := 36

/-- `preLen`. -/
def preLen : Nat := 12

/-- `seqLen`. -/
def seqLen : Nat := 10

/-- `maxSeq`. -/
def maxSeq : Nat := 3656158440062976

/-- `minInc`. -/
def minInc : Nat := 33

/-- `maxInc`. -/
def maxInc : Nat := 333

/-- `totalLen`. -/
def totalLen : Nat := preLen + seqLen

/-- `digits.charCodeAt(n)`. -/
def digitAt (n : Nat) : Char := digits.getD n '0'

/-- What `setPre` and `initSeqAndInc` draw: the random bytes, and numbers in their ranges. -/
structure Draw where
  cbuf : List UInt8
  seq : Nat
  inc : Nat
  length_cbuf : cbuf.length = preLen
  seq_lt : seq < maxSeq
  minInc_le : minInc ≤ inc
  inc_lt : inc < maxInc

/-- The fields of `Nuid`. -/
structure Nuid where
  buf : List Char
  seq : Nat
  inc : Nat
  inited : Bool
deriving DecidableEq, Repr

namespace Nuid

/-- The constructor. `seq` and `inc` are assigned before they are read. -/
def new : Nuid := ⟨List.replicate totalLen '\x00', 0, 0, false⟩

/-- `setPre()`. -/
def setPre (s : Nuid) (cbuf : List UInt8) : Nuid :=
  { s with buf := (cbuf.map fun b => digitAt (b.toNat % base)) ++ s.buf.drop preLen }

/-- `initSeqAndInc()`. -/
def initSeqAndInc (s : Nuid) (d : Draw) : Nuid := { s with seq := d.seq, inc := d.inc }

/-- `fillSeq()`. -/
def fillSeq (s : Nuid) : Nuid :=
  { s with buf := s.buf.take preLen ++ fixedDigits digitAt base seqLen s.seq }

/-- `init()`, which `reset()` calls too. -/
def init (s : Nuid) (d : Draw) : Nuid :=
  (({ s with inited := true }.setPre d.cbuf).initSeqAndInc d).fillSeq

/-- `next()` behind the initialisation. -/
def advance (s : Nuid) (d : Draw) : Nuid :=
  let s := { s with seq := s.seq + s.inc }
  let s := if maxSeq < s.seq then (s.setPre d.cbuf).initSeqAndInc d else s
  s.fillSeq

/-- `next()`; the id is `buf`. -/
def next (s : Nuid) (first d : Draw) : Nuid := (if s.inited then s else s.init first).advance d

end Nuid

/-- The calls, with what they draw: `next` may draw twice. -/
inductive NuidCall where
  | next (first d : Draw)
  | reset (d : Draw)

/-- A `Nuid` with the ids it returned, each with the number of the prefix it has. `seqs` are the
sequence numbers of the ids that have the current one. -/
structure Issuer where
  nuid : Nuid
  period : Nat
  seqs : List Nat
  log : List (Nat × List Char)

namespace Issuer

/-- Before the first call. -/
def new : Issuer := ⟨.new, 0, [], []⟩

/-- A prefix is drawn by `init`. -/
def reset (s : Issuer) (d : Draw) : Issuer :=
  { s with nuid := s.nuid.init d, period := s.period + 1, seqs := [] }

/-- `next` draws a prefix on its own. -/
def rolls (s : Issuer) : Bool := maxSeq < s.nuid.seq + s.nuid.inc

/-- The next sequence number. -/
def turn (s : Issuer) (d : Draw) : Issuer :=
  { s with
    nuid := s.nuid.advance d
    period := if s.rolls then s.period + 1 else s.period
    seqs := if s.rolls then [] else s.seqs }

/-- Its id is returned. -/
def issue (s : Issuer) (d : Draw) : Issuer :=
  let s := s.turn d
  { s with seqs := s.seqs ++ [s.nuid.seq], log := s.log ++ [(s.period, s.nuid.buf)] }

/-- The initialisation that `next` begins with. -/
def started (s : Issuer) (d : Draw) : Issuer := if s.nuid.inited then s else s.reset d

/-- A call. -/
def call (s : Issuer) : NuidCall → Issuer
  | .next first d => (s.started first).issue d
  | .reset d => s.reset d

/-- The call does not write `maxSeq` in a period that began with `0`. -/
def Spares (s : Issuer) : NuidCall → Prop
  | .next _ _ => ¬ (0 ∈ s.seqs ∧ s.nuid.seq + s.nuid.inc = maxSeq)
  | .reset _ => True

/-- The calls are those of `nuid`. -/
theorem nuid_call (s : Issuer) (first d : Draw) :
    (s.call (.next first d)).nuid = s.nuid.next first d := by
  show ((s.started first).nuid.advance d) = _
  rw [started, Nuid.next]
  split
  · rfl
  · rfl

end Issuer

/-! ## Ids -/

theorem mem_digits {n : Nat} (hn : n < base) : digitAt n ∈ digits := by
  revert n
  decide

theorem digitAt_inj (i j : Nat) (hi : i < base) (hj : j < base) (h : digitAt i = digitAt j) :
    i = j := by
  have hall : ∀ i : Fin base, ∀ j : Fin base, digitAt i = digitAt j → i = j := by decide
  exact Fin.mk.inj_iff.1 (hall ⟨i, hi⟩ ⟨j, hj⟩ h)

/-- The id of a sequence number. -/
def idOf (pre : List Char) (seq : Nat) : List Char := pre ++ fixedDigits digitAt base seqLen seq

/-- A prefix. -/
structure IsPrefix (pre : List Char) : Prop where
  length : pre.length = preLen
  digit : ∀ c ∈ pre, c ∈ digits

theorem IsPrefix.idOf {pre : List Char} (h : IsPrefix pre) (seq : Nat) :
    (idOf pre seq).length = totalLen ∧ ∀ c ∈ idOf pre seq, c ∈ digits := by
  constructor
  · rw [Connection.idOf, List.length_append, h.length, length_fixedDigits, totalLen]
  · intro c hc
    rcases List.mem_append.1 hc with hc | hc
    · exact h.digit c hc
    · obtain ⟨i, hi, rfl⟩ := mem_fixedDigits (by decide) hc
      exact mem_digits hi

/-- **Ids that are alike**: the larger number is `maxSeq` and the other one is `0`. -/
theorem idOf_eq_iff {pre : List Char} {i j : Nat} (hij : i < j) (hj : j ≤ maxSeq) :
    idOf pre i = idOf pre j ↔ i = 0 ∧ j = maxSeq := by
  have hmax : base ^ seqLen = maxSeq := by decide
  rw [idOf, idOf, List.append_cancel_left_eq, fixedDigits_eq_iff (by decide) digitAt_inj, hmax,
    Nat.mod_eq_of_lt (Nat.lt_of_lt_of_le hij hj)]
  rcases Nat.lt_or_eq_of_le hj with hlt | rfl
  · rw [Nat.mod_eq_of_lt hlt]
    omega
  · rw [Nat.mod_self]
    omega

/-- The prefix that was drawn. -/
def Draw.pre (d : Draw) : List Char := d.cbuf.map fun b => digitAt (b.toNat % base)

theorem Draw.isPrefix (d : Draw) : IsPrefix d.pre where
  length := by rw [Draw.pre, List.length_map, d.length_cbuf]
  digit := by
    intro c hc
    obtain ⟨b, -, rfl⟩ := List.mem_map.1 hc
    exact mem_digits (Nat.mod_lt _ (by decide))

namespace Nuid

/-- The prefix of the ids. -/
def pre (s : Nuid) : List Char := s.buf.take preLen

variable {s : Nuid} {d : Draw}

theorem pre_setPre : (s.setPre d.cbuf).pre = d.pre := by
  show (d.pre ++ s.buf.drop preLen).take preLen = d.pre
  rw [← d.isPrefix.length, List.take_left]

theorem pre_fillSeq (h : IsPrefix s.pre) : s.fillSeq.pre = s.pre := by
  show (s.pre ++ fixedDigits digitAt base seqLen s.seq).take preLen = s.pre
  rw [← h.length, List.take_left]

/-- **What `init` leaves.** -/
theorem init_spec (s : Nuid) (d : Draw) :
    (s.init d).inited = true ∧ (s.init d).pre = d.pre ∧ (s.init d).seq = d.seq ∧
      (s.init d).inc = d.inc := by
  refine ⟨rfl, ?_, rfl, rfl⟩
  have hpre : (({ s with inited := true }.setPre d.cbuf).initSeqAndInc d).pre = d.pre := pre_setPre
  rw [init, pre_fillSeq (hpre ▸ d.isPrefix), hpre]

/-- **What `next` leaves**: the next number under the same prefix, or what was drawn. -/
theorem advance_spec (h : IsPrefix s.pre) (d : Draw) :
    (s.advance d).inited = s.inited ∧ (s.advance d).buf = idOf (s.advance d).pre (s.advance d).seq ∧
      if maxSeq < s.seq + s.inc then
        (s.advance d).pre = d.pre ∧ (s.advance d).seq = d.seq ∧ (s.advance d).inc = d.inc
      else (s.advance d).pre = s.pre ∧ (s.advance d).seq = s.seq + s.inc ∧
        (s.advance d).inc = s.inc := by
  unfold advance
  by_cases hroll : maxSeq < s.seq + s.inc
  · simp only [if_pos hroll]
    have hpre : (({ s with seq := s.seq + s.inc }.setPre d.cbuf).initSeqAndInc d).pre = d.pre :=
      pre_setPre
    have hfill := pre_fillSeq (hpre ▸ d.isPrefix)
    refine ⟨rfl, ?_, hfill.trans hpre, rfl, rfl⟩
    rw [hfill]
    rfl
  · simp only [if_neg hroll]
    have hfill := pre_fillSeq (s := { s with seq := s.seq + s.inc }) h
    refine ⟨rfl, ?_, hfill, rfl, rfl⟩
    rw [hfill]
    rfl

end Nuid

/-! ## Runs -/

namespace Issuer

/-- The ids of the current prefix are those of `seqs`, which go up to the current number. -/
structure Inv (s : Issuer) : Prop where
  fresh : s.nuid.inited = false → s.seqs = []
  isPrefix : s.nuid.inited = true → IsPrefix s.nuid.pre
  seq_le : s.nuid.inited = true → s.nuid.seq ≤ maxSeq ∧ minInc ≤ s.nuid.inc
  seqs_le : ∀ x ∈ s.seqs, x ≤ s.nuid.seq
  log : ∀ e ∈ s.log, e.1 < s.period ∨ e.1 = s.period ∧ ∃ x ∈ s.seqs, e.2 = idOf s.nuid.pre x
  seqs : ∀ x ∈ s.seqs, (s.period, idOf s.nuid.pre x) ∈ s.log
  valid : ∀ e ∈ s.log, e.2.length = totalLen ∧ ∀ c ∈ e.2, c ∈ digits

variable {s : Issuer}

theorem inv_new : new.Inv where
  fresh := fun _ => rfl
  isPrefix := fun h => by cases h
  seq_le := fun h => by cases h
  seqs_le := fun x hx => by cases hx
  log := fun e he => by cases he
  seqs := fun x hx => by cases hx
  valid := fun e he => by cases he

/-- A prefix was drawn. -/
theorem Inv.renew (h : s.Inv) {nuid : Nuid} {d : Draw} (hpre : nuid.pre = d.pre)
    (hseq : nuid.seq = d.seq) (hinc : nuid.inc = d.inc) :
    ({ s with nuid := nuid, period := s.period + 1, seqs := [] } : Issuer).Inv where
  fresh := fun _ => rfl
  isPrefix := fun _ => hpre ▸ d.isPrefix
  seq_le := fun _ => ⟨hseq ▸ Nat.le_of_lt d.seq_lt, hinc ▸ d.minInc_le⟩
  seqs_le := fun x hx => by cases hx
  log := by
    intro e he
    apply Or.inl
    rcases h.log e he with hlt | ⟨heq, -⟩
    · exact Nat.lt_succ_of_lt hlt
    · exact Nat.lt_succ_of_le (Nat.le_of_eq heq)
  seqs := fun x hx => by cases hx
  valid := h.valid

theorem Inv.reset (h : s.Inv) (d : Draw) : (s.reset d).Inv := by
  obtain ⟨-, hpre, hseq, hinc⟩ := s.nuid.init_spec d
  exact h.renew hpre hseq hinc

theorem Inv.started (h : s.Inv) (d : Draw) :
    (s.started d).Inv ∧ (s.started d).nuid.inited = true := by
  rw [Issuer.started]
  split
  · next hinited => exact ⟨h, hinited⟩
  · exact ⟨h.reset d, rfl⟩

/-- **The next number**: the ids that were made are those of smaller ones. -/
theorem Inv.turn (h : s.Inv) (hinited : s.nuid.inited = true) (d : Draw) :
    (s.turn d).Inv ∧ (s.turn d).nuid.inited = true ∧
      (s.turn d).nuid.buf = idOf (s.turn d).nuid.pre (s.turn d).nuid.seq := by
  obtain ⟨hinit, hbuf, hspec⟩ := Nuid.advance_spec (h.isPrefix hinited) d
  rw [hinited] at hinit
  refine ⟨?_, hinit, hbuf⟩
  by_cases hroll : maxSeq < s.nuid.seq + s.nuid.inc
  · rw [if_pos hroll] at hspec
    obtain ⟨hpre, hseq, hinc⟩ := hspec
    simp only [Issuer.turn, rolls, decide_eq_true hroll, if_true]
    exact h.renew hpre hseq hinc
  · rw [if_neg hroll] at hspec
    obtain ⟨hpre, hseq, hinc⟩ := hspec
    simp only [Issuer.turn, rolls, decide_eq_false hroll, Bool.false_eq_true, if_false]
    refine ⟨fun hfalse => absurd (hinit.symm.trans hfalse) Bool.noConfusion, fun _ => ?_,
      fun _ => ?_, fun x hx => ?_, ?_, ?_, h.valid⟩
    · exact hpre ▸ h.isPrefix hinited
    · exact ⟨hseq ▸ Nat.le_of_not_lt hroll, hinc ▸ (h.seq_le hinited).2⟩
    · exact hseq ▸ Nat.le_add_right_of_le (h.seqs_le x hx)
    · exact hpre ▸ h.log
    · exact hpre ▸ h.seqs

/-- **An id** goes to the log. -/
theorem Inv.record (h : s.Inv) (hinited : s.nuid.inited = true) :
    ({ s with
      seqs := s.seqs ++ [s.nuid.seq]
      log := s.log ++ [(s.period, idOf s.nuid.pre s.nuid.seq)] } : Issuer).Inv where
  fresh := fun hfalse => absurd (hinited.symm.trans hfalse) Bool.noConfusion
  isPrefix := h.isPrefix
  seq_le := h.seq_le
  seqs_le := by
    intro x hx
    rcases List.mem_append.1 hx with hx | hx
    · exact h.seqs_le x hx
    · exact Nat.le_of_eq (List.mem_singleton.1 hx)
  log := by
    intro e he
    rcases List.mem_append.1 he with he | he
    · rcases h.log e he with hlt | ⟨heq, x, hx, hid⟩
      · exact .inl hlt
      · exact .inr ⟨heq, x, List.mem_append_left _ hx, hid⟩
    · rw [List.mem_singleton.1 he]
      exact .inr ⟨rfl, s.nuid.seq, List.mem_append_right _ (List.mem_singleton.2 rfl), rfl⟩
  seqs := by
    intro x hx
    rcases List.mem_append.1 hx with hx | hx
    · exact List.mem_append_left _ (h.seqs x hx)
    · rw [List.mem_singleton.1 hx]
      exact List.mem_append_right _ (List.mem_singleton.2 rfl)
  valid := by
    intro e he
    rcases List.mem_append.1 he with he | he
    · exact h.valid e he
    · rw [List.mem_singleton.1 he]
      exact (h.isPrefix hinited).idOf s.nuid.seq

theorem issue_eq (h : s.Inv) (hinited : s.nuid.inited = true) (d : Draw) :
    s.issue d =
      { s.turn d with
        seqs := (s.turn d).seqs ++ [(s.turn d).nuid.seq]
        log := s.log ++ [((s.turn d).period, idOf (s.turn d).nuid.pre (s.turn d).nuid.seq)] } := by
  rw [← (h.turn hinited d).2.2]
  rfl

/-- **One call.** -/
theorem inv_call (h : s.Inv) (c : NuidCall) : (s.call c).Inv := by
  cases c with
  | reset d => exact h.reset d
  | next first d =>
      obtain ⟨hstarted, hinited⟩ := h.started first
      obtain ⟨hturn, hturned, -⟩ := hstarted.turn hinited d
      show ((s.started first).issue d).Inv
      rw [issue_eq hstarted hinited]
      exact hturn.record hturned

/-- **Runs.** -/
theorem inv_foldl (cs : List NuidCall) : (cs.foldl call new).Inv := by
  refine invariant_run (I := Inv) ?_ (run_total call new cs) inv_new
  rintro s c s' hs ⟨⟩
  exact inv_call hs c

/-- The next id was made before exactly where it is that of `maxSeq` and one was made from `0`. -/
theorem mem_log_turn (h : s.Inv) (hinited : s.nuid.inited = true) (d : Draw) :
    ((s.turn d).period, idOf (s.turn d).nuid.pre (s.turn d).nuid.seq) ∈ s.log ↔
      0 ∈ s.seqs ∧ s.nuid.seq + s.nuid.inc = maxSeq := by
  obtain ⟨-, -, hspec⟩ := Nuid.advance_spec (h.isPrefix hinited) d
  obtain ⟨hseq_le, hinc_le⟩ := h.seq_le hinited
  by_cases hroll : maxSeq < s.nuid.seq + s.nuid.inc
  · -- no id has the prefix that was drawn
    simp only [turn, rolls, decide_eq_true hroll, if_true]
    constructor
    · intro hmem
      rcases h.log _ hmem with hlt | ⟨heq, -⟩
      · exact absurd hlt (Nat.not_lt.2 (Nat.le_succ _))
      · exact absurd heq (Nat.succ_ne_self _)
    · rintro ⟨-, heq⟩
      omega
  · rw [if_neg hroll] at hspec
    obtain ⟨hpre, hseq, -⟩ := hspec
    have hpos : 0 < s.nuid.inc := Nat.lt_of_lt_of_le (by decide) hinc_le
    simp only [turn, rolls, decide_eq_false hroll, Bool.false_eq_true, if_false, hpre, hseq]
    constructor
    · intro hmem
      rcases h.log _ hmem with hlt | ⟨-, x, hx, hid⟩
      · exact absurd hlt (Nat.lt_irrefl _)
      · have hx_le := h.seqs_le x hx
        obtain ⟨rfl, hmax⟩ := (idOf_eq_iff (by omega) (Nat.le_of_not_lt hroll)).1 hid.symm
        exact ⟨hx, hmax⟩
    · rintro ⟨hzero, hmax⟩
      have hid : idOf s.nuid.pre 0 = idOf s.nuid.pre (s.nuid.seq + s.nuid.inc) :=
        (idOf_eq_iff (by omega) (Nat.le_of_not_lt hroll)).2 ⟨rfl, hmax⟩
      exact hid ▸ h.seqs 0 hzero

/-- **One call** returns a new id exactly where it does not write `maxSeq` behind `0`. -/
theorem nodup_call (h : s.Inv) (c : NuidCall) :
    (s.call c).log.Nodup ↔ s.log.Nodup ∧ s.Spares c := by
  cases c with
  | reset d => exact (and_iff_left trivial).symm
  | next first d =>
      obtain ⟨hstarted, hinited⟩ := h.started first
      have hmem := mem_log_turn hstarted hinited d
      have hlog : (s.started first).log = s.log := by
        rw [started]
        split
        · rfl
        · rfl
      have hspares : s.Spares (.next first d) ↔ (s.started first).Spares (.next first d) := by
        rw [started]
        split
        · exact Iff.rfl
        · next hfresh =>
            have hseqs := h.fresh (Bool.not_eq_true _ ▸ hfresh)
            simp only [Spares, hseqs, reset, List.not_mem_nil, false_and, not_false_eq_true]
      show ((s.started first).issue d).log.Nodup ↔ _
      rw [issue_eq hstarted hinited, hspares, ← hlog]
      rw [List.nodup_append]
      simp only [Spares, ← hmem]
      refine and_congr_right fun _ => ?_
      constructor
      · rintro ⟨-, hne⟩ hin
        exact hne _ hin _ (List.mem_singleton.2 rfl) rfl
      · intro hnot
        refine ⟨List.nodup_singleton _, fun a ha b hb heq => hnot ?_⟩
        rw [← List.mem_singleton.1 hb, ← heq]
        exact ha

/-- **The ids of one prefix are different** exactly where no call writes `maxSeq` in a period that
began with `0`; every id has 22 digits. -/
theorem distinct_iff (cs : List NuidCall) :
    let s := cs.foldl call new
    (∀ e ∈ s.log, e.2.length = 22 ∧ ∀ c ∈ e.2, c ∈ digits) ∧
      (s.log.Nodup ↔ Meets (fun s c => some (s.call c)) Spares new cs) := by
  refine ⟨(inv_foldl cs).valid, ?_⟩
  refine (iff_meets (I := Inv) (C := fun s => s.log.Nodup) ?_ ?_ (run_total call new cs)
    inv_new).trans (and_iff_right List.nodup_nil)
  · rintro s c s' hs ⟨⟩
    exact inv_call hs c
  · rintro s c s' hs ⟨⟩
    exact nodup_call hs c

/-! ## A period that begins with `0` -/

/-- Draws of the prefix of zeros. -/
def draw (seq inc : Nat) (hseq : seq < maxSeq) (hmin : minInc ≤ inc) (hmax : inc < maxInc) : Draw :=
  ⟨List.replicate preLen 0, seq, inc, List.length_replicate, hseq, hmin, hmax⟩

/-- The first number is the last one there is, and the draw behind it begins with `0`. -/
def fromZero : NuidCall :=
  .next (draw (maxSeq - 1) 33 (by decide) (by decide) (by decide))
    (draw 0 36 (by decide) (by decide) (by decide))

/-- The same period goes on. -/
theorem issue_of_not_rolls {s : Issuer} (h : s.Inv) (hinited : s.nuid.inited = true)
    (hroll : ¬ maxSeq < s.nuid.seq + s.nuid.inc) (d : Draw) :
    (s.issue d).nuid.inited = true ∧ (s.issue d).nuid.seq = s.nuid.seq + s.nuid.inc ∧
      (s.issue d).nuid.inc = s.nuid.inc ∧ ∀ x ∈ s.seqs, x ∈ (s.issue d).seqs := by
  obtain ⟨hinit, -, hspec⟩ := Nuid.advance_spec (h.isPrefix hinited) d
  rw [if_neg hroll] at hspec
  refine ⟨hinit.trans hinited, hspec.2.1, hspec.2.2, fun x hx => ?_⟩
  apply List.mem_append_left
  simp only [turn, rolls, decide_eq_false hroll, Bool.false_eq_true, if_false]
  exact hx

/-- The numbers of that period. -/
theorem run_fromZero (k : Nat) (hk : 36 * k ≤ maxSeq) :
    let s := (List.replicate (k + 1) fromZero).foldl call new
    s.nuid.inited = true ∧ s.nuid.seq = 36 * k ∧ s.nuid.inc = 36 ∧ 0 ∈ s.seqs := by
  induction k with
  | zero => exact ⟨rfl, rfl, rfl, by decide⟩
  | succ k ih =>
      obtain ⟨hinited, hseq, hinc, hzero⟩ := ih (by omega)
      have hinv := inv_foldl (List.replicate (k + 1) fromZero)
      rw [List.replicate_succ', List.foldl_append, List.foldl_cons, List.foldl_nil]
      generalize (List.replicate (k + 1) fromZero).foldl call new = s
        at hinited hseq hinc hzero hinv ⊢
      have hcall : ∃ d, s.call fromZero = s.issue d :=
        ⟨_, congrArg (fun s => issue s _) (if_pos hinited)⟩
      obtain ⟨d, hcall⟩ := hcall
      have hroll : ¬ maxSeq < s.nuid.seq + s.nuid.inc := by omega
      obtain ⟨hinited', hseq', hinc', hseqs⟩ := issue_of_not_rolls hinv hinited hroll d
      simp only [hcall]
      refine ⟨hinited', ?_, hinc'.trans hinc, hseqs 0 hzero⟩
      rw [hseq', hseq, hinc]
      omega

/-- `36 ^ 9` calls behind the one that wrote `0`, the same id is returned. -/
theorem not_distinct : ¬ ∀ cs : List NuidCall, (cs.foldl call new).log.Nodup := by
  intro hall
  obtain ⟨-, hseq, hinc, hzero⟩ := run_fromZero 101559956668415 (by decide)
  have hinv := inv_foldl (List.replicate (101559956668415 + 1) fromZero)
  have hlog := hall (List.replicate (101559956668415 + 1) fromZero ++ [fromZero])
  rw [List.foldl_append, List.foldl_cons, List.foldl_nil] at hlog
  generalize (List.replicate (101559956668415 + 1) fromZero).foldl call new =
    s at hseq hinc hzero hinv hlog
  refine ((nodup_call hinv fromZero).1 hlog).2 ⟨hzero, ?_⟩
  rw [hseq, hinc]
  decide

end Issuer

end NatsClient.Connection
