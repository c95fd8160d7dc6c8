import Mathlib.Data.List.Perm.Subperm
import NatsClient.JetStream.StreamState

/-!
# Deliver policies

What a consumer of a stream delivers: the messages its filter lets through, from where its deliver
policy starts. A policy is read when the consumer is created (`DeliverPolicy.includes`), and the
messages that are stored later are delivered behind those it selected.

A `Feed` delivers the messages of a stream in the order of their sequences, with the number of those
that are still to come.
-/

set_option autoImplicit false

namespace NatsClient.JetStream

/-- `DeliverPolicy`, with `opt_start_seq` and `opt_start_time`. -/
inductive DeliverPolicy where
  | All
  | Last
  | New
  | StartSequence (optStartSeq : Nat)
  | StartTime (optStartTime : Nat)
  | LastPerSubject
deriving DecidableEq, Repr

variable {β : Type}

/-- A consumer that is created on the stream with this policy delivers the message, if its filter
lets it through. -/
def DeliverPolicy.includes (policy : DeliverPolicy) (s : StreamState β) (filter : Text → Bool)
    (m : StoredMsg β) : Bool :=
  match policy with
  | .All => true
  | .Last =>
      match (s.msgs.filter fun m => filter m.subject).getLast? with
      | some last => decide (last.seq ≤ m.seq)
      | none => true
  | .New => decide (s.lastSeq < m.seq)
  | .StartSequence seq => decide (seq ≤ m.seq)
  | .StartTime time => decide (time ≤ m.time)
  | .LastPerSubject => decide (s.lastSeq < m.seq) || decide (s.lastSeqFor m.subject = m.seq)

/-- A push consumer on the server: what it may deliver, the sequence it has reached, and how many
messages it delivered. -/
structure Feed (β : Type) where
  eligible : StoredMsg β → Bool
  cursor : Nat
  consumerSeq : Nat

namespace Feed

/-- A consumer is created. -/
def create (s : StreamState β) (policy : DeliverPolicy) (filter : Text → Bool) : Feed β :=
  ⟨fun m => filter m.subject && policy.includes s filter m, 0, 0⟩

/-- The messages still to deliver. -/
def pending (f : Feed β) (s : StreamState β) : List (StoredMsg β) :=
  s.msgs.filter fun m => decide (f.cursor < m.seq) && f.eligible m

/-- The consumer delivers a message. -/
def deliver (f : Feed β) (m : StoredMsg β) : Feed β :=
  { f with cursor := m.seq, consumerSeq := f.consumerSeq + 1 }

section

variable {f : Feed β} {s : StreamState β} {m : StoredMsg β} {rest : List (StoredMsg β)}

theorem mem_pending : m ∈ f.pending s ↔ m ∈ s.msgs ∧ f.cursor < m.seq ∧ f.eligible m = true := by
  simp [pending, List.mem_filter]

theorem pending_ordered : (f.pending s).Pairwise fun m m' => m.seq < m'.seq :=
  s.ordered.sublist List.filter_sublist

/-- **A delivery takes the first message.** -/
theorem pending_deliver (h : f.pending s = m :: rest) : (f.deliver m).pending s = rest := by
  have hordered := pending_ordered (f := f) (s := s)
  rw [h, List.pairwise_cons] at hordered
  have hcursor := (mem_pending.1 (h ▸ List.mem_cons_self .. : m ∈ f.pending s)).2.1
  have hfilter : (f.deliver m).pending s = (f.pending s).filter fun m' =>
      decide (m.seq < m'.seq) := by
    unfold pending
    rw [List.filter_filter]
    apply List.filter_congr
    intro m' _
    by_cases hlt : m.seq < m'.seq
    · simp [deliver, hlt, hcursor.trans hlt]
    · simp [deliver, hlt]
  rw [hfilter, h, List.filter_cons_of_neg (by simp), List.filter_eq_self]
  intro m' hm'
  exact decide_eq_true (hordered.1 m' hm')

/-- **A change of the stream** takes messages away, and adds newer ones at the end. -/
theorem pending_later {s' : StreamState β} (h : StreamState.Later s s') :
    ∃ kept newer, f.pending s' = kept ++ newer ∧ kept.Sublist (f.pending s) ∧
      ∀ m ∈ newer, s.lastSeq < m.seq := by
  obtain ⟨kept, newer, hmsgs, hkept, hnewer⟩ := h.split
  refine ⟨kept.filter fun m => decide (f.cursor < m.seq) && f.eligible m,
    newer.filter fun m => decide (f.cursor < m.seq) && f.eligible m, ?_, hkept.filter _,
    fun m hm => hnewer m (List.mem_of_mem_filter hm)⟩
  rw [pending, hmsgs, List.filter_append]

/-- What was selected and stays, stays in front. -/
theorem initial_later {s' : StreamState β} {front : List (StoredMsg β)} (h : StreamState.Later s s')
    (hfront : front <+: f.pending s) (hstay : ∀ m ∈ front, m ∈ f.pending s') :
    front <+: f.pending s' := by
  obtain ⟨kept, newer, hsplit, hkept, hnewer⟩ := pending_later (f := f) h
  obtain ⟨rest, hrest⟩ := hfront
  rw [← hrest] at hkept
  obtain ⟨kept₁, kept₂, rfl, hkept₁, hkept₂⟩ := List.sublist_append_iff.1 hkept
  have hordered := pending_ordered (f := f) (s := s)
  rw [← hrest, List.pairwise_append] at hordered
  have hmem : ∀ m ∈ front, m ∈ kept₁ := by
    intro m hm
    have hstored := hstay m hm
    rw [hsplit, List.mem_append, List.mem_append] at hstored
    rcases hstored with (hm' | hm') | hm'
    · exact hm'
    · exact absurd (hordered.2.2 m hm m (hkept₂.subset hm')) (Nat.lt_irrefl _)
    · have hpending : m ∈ f.pending s := hrest ▸ List.mem_append_left rest hm
      have hle := (s.seq_bounds m (mem_pending.1 hpending).1).2
      exact absurd (hnewer m hm') (Nat.not_lt.2 hle)
  have hnodup : front.Nodup := hordered.1.imp fun hlt heq => absurd (heq ▸ hlt) (Nat.lt_irrefl _)
  have hfront : kept₁ = front := hkept₁.eq_of_length_le (hnodup.subperm hmem).length_le
  rw [hsplit, hfront, List.append_assoc]
  exact List.prefix_append ..

end

end Feed

end NatsClient.JetStream
