import Mathlib.Data.List.Nodup
import Mathlib.Order.Nat
import Mathlib.Tactic.Common

/-!
# A stream

The stream of a JetStream server, as far as the client's code relies on it: messages stored in the
order of their sequences, subjects with wildcards in filters, the check of the expected last
sequence of a subject, the limit of messages for one subject, rollups and purges.

A message carries what the client put into it (`β`). Texts are lists of characters.

* `subjectMatches_iff`: a filter without wildcards matches itself only;
* `lastFor_append`, `lastFor_append_of_ne`: what a publication does to the last message of a
  subject.
-/

set_option autoImplicit false

namespace NatsClient.JetStream

abbrev Text := List Char

/-! ## Subjects -/

/-- The tokens of a subject or of a key. -/
def tokens (t : Text) : List Text := t.splitOn '.'

/-- The tokens of a filter against those of a subject. -/
def matchTokens : List Text → List Text → Bool
  | [], [] => true
  | f :: fs, t :: ts =>
      -- the last token of a filter may stand for all that follow
      if f = ['>'] ∧ fs = [] then true
      else (f = ['*'] || f = t) && matchTokens fs ts
  | [], _ :: _ | _ :: _, [] => false

/-- The filter matches the subject. -/
def subjectMatches (filter subject : Text) : Bool := matchTokens (tokens filter) (tokens subject)

/-- No token of the text is a wildcard. -/
def Literal (t : Text) : Prop := '*' ∉ t ∧ '>' ∉ t

instance (t : Text) : Decidable (Literal t) := inferInstanceAs (Decidable (_ ∧ _))

theorem intercalate_tokens (t : Text) : List.intercalate ['.'] (tokens t) = t :=
  List.intercalate_splitOn '.'

theorem tokens_injective {t t' : Text} (h : tokens t = tokens t') : t = t' := by
  have htext := congrArg (List.intercalate ['.']) h
  rwa [intercalate_tokens, intercalate_tokens] at htext

theorem matchTokens_self (ts : List Text) : matchTokens ts ts = true := by
  induction ts with
  | nil => rfl
  | cons t ts ih =>
      simp only [matchTokens]
      split
      · rfl
      · simp [ih]

/-- Tokens that are no wildcards match themselves only. -/
theorem eq_of_matchTokens {fs ts : List Text} (hfs : ∀ f ∈ fs, f ≠ ['*'] ∧ f ≠ ['>'])
    (h : matchTokens fs ts = true) : fs = ts := by
  induction fs generalizing ts with
  | nil =>
      cases ts with
      | nil => rfl
      | cons t ts => cases h
  | cons f fs ih =>
      cases ts with
      | nil => cases h
      | cons t ts =>
          obtain ⟨hstar, hgt⟩ := hfs f (List.mem_cons_self ..)
          simp only [matchTokens, if_neg (fun hall : f = ['>'] ∧ fs = [] => hgt hall.1),
            Bool.and_eq_true, Bool.or_eq_true, decide_eq_true_eq] at h
          have htail := ih (fun f hf => hfs f (List.mem_cons_of_mem _ hf)) h.2
          rw [h.1.resolve_left hstar, htail]

theorem mem_intercalate {sep : Text} {ts : List Text} {t : Text} {c : Char} (ht : t ∈ ts)
    (hc : c ∈ t) : c ∈ sep.intercalate ts := by
  induction ts with
  | nil => cases ht
  | cons u us ih =>
      by_cases hus : us = []
      · rw [hus] at ht ⊢
        rw [List.intercalate_singleton, ← List.mem_singleton.1 ht]
        exact hc
      · rw [List.intercalate_cons_of_ne_nil hus, List.mem_append, List.mem_append]
        rcases List.mem_cons.1 ht with rfl | ht
        · exact Or.inl (Or.inl hc)
        · exact Or.inr (ih ht)

/-- The characters of a token are characters of the text. -/
theorem mem_of_mem_tokens {t token : Text} {c : Char} (htoken : token ∈ tokens t) (hc : c ∈ token) :
    c ∈ t := by
  rw [← intercalate_tokens t]
  exact mem_intercalate htoken hc

theorem Literal.of_mem_tokens {t token : Text} (h : Literal t) (htoken : token ∈ tokens t) :
    token ≠ ['*'] ∧ token ≠ ['>'] := by
  constructor
  · rintro rfl
    exact h.1 (mem_of_mem_tokens htoken (List.mem_singleton.2 rfl))
  · rintro rfl
    exact h.2 (mem_of_mem_tokens htoken (List.mem_singleton.2 rfl))

/-- **A filter without wildcards matches itself only.** -/
theorem subjectMatches_iff {filter subject : Text} (h : Literal filter) :
    subjectMatches filter subject = true ↔ filter = subject := by
  constructor
  · intro hmatch
    exact tokens_injective (eq_of_matchTokens (fun f hf => h.of_mem_tokens hf) hmatch)
  · rintro rfl
    exact matchTokens_self _

/-! ## Messages -/

/-- A stored message. -/
structure StoredMsg (β : Type) where
  subject : Text
  seq : Nat
  time : Nat
  body : β
deriving DecidableEq, Repr

/-- Sequences tell messages in order apart. -/
theorem eq_of_seq_eq {β : Type} {ms : List (StoredMsg β)} {m m' : StoredMsg β}
    (hms : ms.Pairwise fun m m' => m.seq < m'.seq) (hm : m ∈ ms) (hm' : m' ∈ ms)
    (hseq : m.seq = m'.seq) : m = m' := by
  have hnodup : (ms.map StoredMsg.seq).Nodup :=
    List.pairwise_map.2 (hms.imp fun hlt => Nat.ne_of_lt hlt)
  exact List.inj_on_of_nodup_map hnodup hm hm' hseq

/-- A stream: `maxMsgsPerSubject` of its configuration, what it retains, and the last sequence. -/
structure StreamState (β : Type) where
  maxMsgsPerSubject : Nat
  msgs : List (StoredMsg β)
  lastSeq : Nat
  max_pos : 0 < maxMsgsPerSubject
  ordered : msgs.Pairwise fun m m' => m.seq < m'.seq
  seq_bounds : ∀ m ∈ msgs, 0 < m.seq ∧ m.seq ≤ lastSeq

/-- A message that is published, with the headers the stream goes by. -/
structure Publication (β : Type) where
  subject : Text
  body : β
  rollupSubject : Bool
  expectedLastSubjectSequence : Option Nat
deriving DecidableEq, Repr

/-- The list without the first `n` elements that satisfy the predicate. -/
def dropMatching {β : Type} (p : β → Bool) : Nat → List β → List β
  | 0, ms => ms
  | _ + 1, [] => []
  | n + 1, m :: ms => if p m then dropMatching p n ms else m :: dropMatching p (n + 1) ms

section

variable {β : Type} {p : β → Bool}

@[simp] theorem dropMatching_zero (ms : List β) : dropMatching p 0 ms = ms := by
  cases ms <;> rfl

theorem dropMatching_sublist (n : Nat) (ms : List β) : (dropMatching p n ms).Sublist ms := by
  induction ms generalizing n with
  | nil => cases n <;> exact List.Sublist.refl _
  | cons m ms ih =>
      cases n with
      | zero => exact List.Sublist.refl _
      | succ n =>
          simp only [dropMatching]
          split
          · exact (ih n).trans (List.sublist_cons_self m ms)
          · exact (ih (n + 1)).cons_cons m

/-- What does not satisfy the predicate stays. -/
theorem filter_not_dropMatching (n : Nat) (ms : List β) {q : β → Bool}
    (hq : ∀ m, q m = true → p m = false) : (dropMatching p n ms).filter q = ms.filter q := by
  induction ms generalizing n with
  | nil => cases n <;> rfl
  | cons m ms ih =>
      cases n with
      | zero => rfl
      | succ n =>
          simp only [dropMatching]
          split
          · rename_i hp
            have hqm : ¬ q m = true := fun h => by simp [hq m h] at hp
            rw [ih, List.filter_cons_of_neg hqm]
          · simp only [List.filter_cons, ih]

/-- Of what satisfies the predicate the first `n` elements are dropped. -/
theorem filter_dropMatching (n : Nat) (ms : List β) :
    (dropMatching p n ms).filter p = (ms.filter p).drop n := by
  induction ms generalizing n with
  | nil => cases n <;> simp [dropMatching]
  | cons m ms ih =>
      cases n with
      | zero => rfl
      | succ n =>
          simp only [dropMatching]
          split
          · rename_i hp
            rw [ih, List.filter_cons_of_pos hp, List.drop_succ_cons]
          · rename_i hp
            rw [List.filter_cons_of_neg hp, List.filter_cons_of_neg hp, ih]

/-- Dropping less than all leaves the last. -/
theorem getLast?_filter_dropMatching {n : Nat} {ms : List β} (hn : n < ms.countP p) :
    ((dropMatching p n ms).filter p).getLast? = (ms.filter p).getLast? := by
  rw [filter_dropMatching, List.getLast?_drop, if_neg]
  rw [← List.countP_eq_length_filter]
  exact Nat.not_le.2 hn

end

namespace StreamState

variable {β : Type}

/-- An empty stream. -/
def empty (maxMsgsPerSubject : Nat) (max_pos : 0 < maxMsgsPerSubject) : StreamState β :=
  ⟨maxMsgsPerSubject, [], 0, max_pos, List.Pairwise.nil, fun _ hm => by cases hm⟩

/-- The messages of a subject. -/
def ofSubject (s : StreamState β) (subject : Text) : List (StoredMsg β) :=
  s.msgs.filter fun m => m.subject = subject

/-- The last message of a subject. -/
def lastFor (s : StreamState β) (subject : Text) : Option (StoredMsg β) :=
  (s.ofSubject subject).getLast?

/-- The last sequence of a subject, `0` where it has no message. -/
def lastSeqFor (s : StreamState β) (subject : Text) : Nat :=
  match s.lastFor subject with
  | some m => m.seq
  | none => 0

/-- The stream keeps some of its messages. -/
def keepOnly (s : StreamState β) (msgs : List (StoredMsg β)) (h : msgs.Sublist s.msgs) :
    StreamState β :=
  ⟨s.maxMsgsPerSubject, msgs, s.lastSeq, s.max_pos, s.ordered.sublist h,
    fun m hm => s.seq_bounds m (h.subset hm)⟩

/-- The stream purged of the messages that match the filter, all but the last `keep` of them. -/
def purge (s : StreamState β) (filter : Text) (keep : Nat) : StreamState β :=
  let matching := fun m : StoredMsg β => subjectMatches filter m.subject
  s.keepOnly (dropMatching matching (s.msgs.countP matching - keep) s.msgs)
    (dropMatching_sublist _ _)

/-- The oldest messages of a subject beyond the limit are dropped. -/
def enforceLimit (s : StreamState β) (subject : Text) : StreamState β :=
  let matching := fun m : StoredMsg β => decide (m.subject = subject)
  s.keepOnly (dropMatching matching (s.msgs.countP matching - s.maxMsgsPerSubject) s.msgs)
    (dropMatching_sublist _ _)

/-- What a rollup of the subject leaves. -/
def rollup (s : StreamState β) (subject : Text) : StreamState β :=
  s.keepOnly (s.msgs.filter fun m => m.subject ≠ subject) List.filter_sublist

/-- A message is removed: by an age or a size limit, or by hand. -/
def remove (s : StreamState β) (seq : Nat) : StreamState β :=
  s.keepOnly (s.msgs.filter fun m => m.seq ≠ seq) List.filter_sublist

/-- A message is stored behind the others. -/
def push (s : StreamState β) (subject : Text) (body : β) (time : Nat) : StreamState β where
  maxMsgsPerSubject := s.maxMsgsPerSubject
  msgs := s.msgs ++ [⟨subject, s.lastSeq + 1, time, body⟩]
  lastSeq := s.lastSeq + 1
  max_pos := s.max_pos
  ordered := by
    refine List.pairwise_append.2 ⟨s.ordered, List.pairwise_singleton _ _, ?_⟩
    intro m hm m' hm'
    rw [List.mem_singleton.1 hm']
    exact Nat.lt_succ_of_le (s.seq_bounds m hm).2
  seq_bounds := by
    intro m hm
    rcases List.mem_append.1 hm with hm | hm
    · exact ⟨(s.seq_bounds m hm).1, Nat.le_succ_of_le (s.seq_bounds m hm).2⟩
    · have hseq := congrArg StoredMsg.seq (List.mem_singleton.1 hm)
      exact ⟨hseq ▸ Nat.succ_pos _, hseq.le⟩

/-- A publication is stored: a rollup removes what the subject had before it. -/
def append (s : StreamState β) (p : Publication β) (time : Nat) : StreamState β :=
  ((if p.rollupSubject then s.rollup p.subject else s).push p.subject p.body time).enforceLimit
    p.subject

/-- The stream takes a publication, unless the last sequence of the subject is another than the one
it expects. -/
def accepts (s : StreamState β) (p : Publication β) : Bool :=
  match p.expectedLastSubjectSequence with
  | some seq => decide (s.lastSeqFor p.subject = seq)
  | none => true

section

variable {s : StreamState β} {p : Publication β} {subject : Text} {time : Nat} {m : StoredMsg β}

@[simp] theorem lastSeq_append : (s.append p time).lastSeq = s.lastSeq + 1 := by
  simp only [append]
  split <;> rfl

theorem lastFor_mem (h : s.lastFor subject = some m) : m ∈ s.msgs ∧ m.subject = subject := by
  have hm := List.mem_filter.1 (List.mem_of_getLast? h)
  exact ⟨hm.1, of_decide_eq_true hm.2⟩

/-- Only a subject without messages has the last sequence `0`. -/
theorem lastFor_eq_none (h : s.lastSeqFor subject = 0) : s.lastFor subject = none := by
  cases hlast : s.lastFor subject with
  | none => rfl
  | some m =>
      have hpos := (s.seq_bounds m (lastFor_mem hlast).1).1
      simp only [lastSeqFor, hlast] at h
      omega

theorem lastFor_of_lastSeqFor (h : s.lastSeqFor subject ≠ 0) :
    ∃ m, s.lastFor subject = some m ∧ m.seq = s.lastSeqFor subject := by
  cases hlast : s.lastFor subject with
  | none => exact absurd (by simp only [lastSeqFor, hlast]) h
  | some m => exact ⟨m, rfl, by simp only [lastSeqFor, hlast]⟩

/-- The limit leaves the last message of every subject. -/
theorem lastFor_enforceLimit (subject' : Text) :
    (s.enforceLimit subject').lastFor subject = s.lastFor subject := by
  simp only [lastFor, ofSubject, enforceLimit, keepOnly]
  by_cases hsubject : subject = subject'
  · rw [hsubject]
    cases hcount : s.msgs.countP fun m => decide (m.subject = subject') with
    | zero => rw [Nat.zero_sub, dropMatching_zero]
    | succ n =>
        have hmax := s.max_pos
        rw [← hcount]
        exact getLast?_filter_dropMatching (by omega)
  · rw [filter_not_dropMatching]
    intro m hm
    rw [decide_eq_true_eq] at hm
    rw [decide_eq_false_iff_not, hm]
    exact hsubject

theorem ofSubject_rollup (hne : subject ≠ p.subject) :
    (if p.rollupSubject then s.rollup p.subject else s).ofSubject subject =
      s.ofSubject subject := by
  split
  · simp only [ofSubject, rollup, keepOnly, List.filter_filter]
    apply List.filter_congr
    intro m _
    by_cases hm : m.subject = subject
    · simp [hm, hne]
    · simp [hm]
  · rfl

theorem ofSubject_push (body : β) :
    (s.push p.subject body time).ofSubject subject =
      s.ofSubject subject ++
        if p.subject = subject then [⟨p.subject, s.lastSeq + 1, time, body⟩] else [] := by
  simp only [ofSubject, push, List.filter_append]
  congr 1
  by_cases h : p.subject = subject
  · rw [if_pos h, List.filter_cons_of_pos (by simpa using h), List.filter_nil]
  · rw [if_neg h, List.filter_cons_of_neg (by simpa using h), List.filter_nil]

/-- **A publication becomes the last message of its subject.** -/
theorem lastFor_append :
    (s.append p time).lastFor p.subject = some ⟨p.subject, s.lastSeq + 1, time, p.body⟩ := by
  have hseq : (if p.rollupSubject then s.rollup p.subject else s).lastSeq = s.lastSeq := by
    split <;> rfl
  rw [append, lastFor_enforceLimit, lastFor, ofSubject_push, if_pos rfl, hseq, List.getLast?_concat]

/-- **A publication leaves the other subjects alone.** -/
theorem lastFor_append_of_ne (hne : subject ≠ p.subject) :
    (s.append p time).lastFor subject = s.lastFor subject := by
  rw [append, lastFor_enforceLimit, lastFor, ofSubject_push, if_neg (Ne.symm hne), List.append_nil,
    ofSubject_rollup hne, lastFor]

/-- A removal elsewhere leaves the last message of a subject. -/
theorem lastFor_remove {seq : Nat} (hne : s.lastSeqFor subject ≠ seq)
    (hm : s.lastFor subject = some m) : (s.remove seq).lastFor subject = some m := by
  have hlast : (s.ofSubject subject).getLast? = some m := hm
  obtain ⟨before, hbefore⟩ := List.getLast?_eq_some_iff.1 hlast
  have hseq : m.seq ≠ seq := by
    simpa only [lastSeqFor, hm] using hne
  have hremove : (s.remove seq).ofSubject subject = (s.ofSubject subject).filter fun m =>
      m.seq ≠ seq := by
    simp only [ofSubject, remove, keepOnly, List.filter_filter, Bool.and_comm]
  rw [lastFor, hremove, hbefore, List.filter_append, List.filter_cons_of_pos (by simpa using hseq),
    List.filter_nil, List.getLast?_concat]

/-- What is retained behind a publication was retained before it, or is the publication. -/
theorem mem_append (h : m ∈ (s.append p time).msgs) :
    m ∈ s.msgs ∨ m = ⟨p.subject, s.lastSeq + 1, time, p.body⟩ := by
  have hpush := (dropMatching_sublist _ _).subset h
  rcases List.mem_append.1 hpush with hm | hm
  · left
    split at hm
    · exact List.mem_of_mem_filter hm
    · exact hm
  · right
    rw [List.mem_singleton.1 hm]
    split <;> rfl

/-- **A purge of a subject** leaves its last messages, and the other subjects. -/
theorem ofSubject_purge {filter : Text} (h : Literal filter) (keep : Nat) :
    (s.purge filter keep).ofSubject subject =
      if subject = filter then (s.ofSubject filter).drop ((s.ofSubject filter).length - keep)
      else s.ofSubject subject := by
  have hmatches : ∀ m : StoredMsg β, subjectMatches filter m.subject = decide
      (m.subject = filter) := by
    intro m
    rw [Bool.eq_iff_iff, subjectMatches_iff h, decide_eq_true_eq, eq_comm]
  have hpurge : (s.purge filter keep).msgs = dropMatching (fun m => decide (m.subject = filter))
      ((s.ofSubject filter).length - keep) s.msgs := by
    simp only [purge, keepOnly, hmatches, ofSubject, List.countP_eq_length_filter]
  rw [ofSubject, hpurge]
  split
  · rename_i hsubject
    rw [hsubject]
    exact filter_dropMatching _ _
  · rename_i hsubject
    refine filter_not_dropMatching _ _ fun m hm => ?_
    rw [decide_eq_true_eq] at hm
    rw [decide_eq_false_iff_not, hm]
    exact hsubject

/-- What a change leaves of a stream: some of its messages, and newer ones behind them. -/
structure Later (s s' : StreamState β) : Prop where
  split : ∃ kept newer, s'.msgs = kept ++ newer ∧ kept.Sublist s.msgs ∧
    ∀ m ∈ newer, s.lastSeq < m.seq
  lastSeq : s.lastSeq ≤ s'.lastSeq

theorem later_keepOnly (msgs : List (StoredMsg β)) (h : msgs.Sublist s.msgs) :
    Later s (s.keepOnly msgs h) :=
  ⟨⟨msgs, [], (List.append_nil _).symm, h, nofun⟩, Nat.le_refl _⟩

/-- **A removal and a purge keep some of the messages.** -/
theorem later_remove (seq : Nat) : Later s (s.remove seq) := later_keepOnly _ List.filter_sublist

theorem later_purge (filter : Text) (keep : Nat) : Later s (s.purge filter keep) :=
  later_keepOnly _ (dropMatching_sublist _ _)

/-- **A publication is stored behind what it leaves.** -/
theorem later_append : Later s (s.append p time) := by
  have hbase : (if p.rollupSubject then s.rollup p.subject else s).msgs.Sublist s.msgs ∧
      (if p.rollupSubject then s.rollup p.subject else s).lastSeq = s.lastSeq := by
    split
    · exact ⟨List.filter_sublist, rfl⟩
    · exact ⟨List.Sublist.refl _, rfl⟩
  refine ⟨?_, lastSeq_append ▸ Nat.le_succ _⟩
  -- the limit drops some of what was there, the publication among it
  obtain ⟨kept, newer, hsplit, hkept, hnewer⟩ := List.sublist_append_iff.1
    (dropMatching_sublist _ _ : (s.append p time).msgs.Sublist _)
  refine ⟨kept, newer, hsplit, hkept.trans hbase.1, fun m hm => ?_⟩
  rw [List.mem_singleton.1 (hnewer.subset hm)]
  exact Nat.lt_succ_of_le (Nat.le_of_eq hbase.2.symm)

end

end StreamState

end NatsClient.JetStream
