import NatsClient.Foundation.Run
import NatsClient.JetStream.DeliverPolicy

/-!
# A consumer of the last messages

A consumer that starts at the last message of every subject, the stream it reads, and the log of
what it delivered, each message with the number of those behind it. Other clients write between any
two deliveries.

* `Covers`: a subject that had a live message at the start and that everybody spares is not passed
  over; it shows up no later than the first message with nothing behind it;
* `Sound`: what is delivered was the last message of its subject, or was published meanwhile;
* `Counted`: without writers, the deliveries are the selected messages in their order, counted down.
-/

set_option autoImplicit false

namespace NatsClient.JetStream

open NatsClient.Foundation

/-- The stream, the consumer and its deliveries. -/
structure Upstream (β : Type) where
  stream : StreamState β
  feed : Feed β
  sent : List (StoredMsg β × Nat)

/-- A delivery, or a change of the stream. -/
inductive UpstreamEvent (β : Type) where
  | deliver
  | publish (p : Publication β) (time : Nat)
  | remove (seq : Nat)
  | purge (filter : Text) (keep : Nat)
deriving DecidableEq, Repr

/-- Another client writes, or the stream drops something. -/
def UpstreamEvent.isWrite {β : Type} : UpstreamEvent β → Bool
  | .deliver => false
  | .publish .. | .remove _ | .purge .. => true

namespace Upstream

variable {β : Type}

/-- The consumer is created. -/
def create (stream : StreamState β) (filter : Text → Bool) : Upstream β :=
  ⟨stream, Feed.create stream .LastPerSubject filter, []⟩

/-- What is still to deliver. -/
def pending (src : Upstream β) : List (StoredMsg β) := src.feed.pending src.stream

/-- A message goes out, with `n` behind it. -/
def delivering (src : Upstream β) (m : StoredMsg β) (n : Nat) : Upstream β :=
  { src with feed := src.feed.deliver m, sent := src.sent ++ [(m, n)] }

/-- One event; `none` where it cannot happen. -/
def step (src : Upstream β) : UpstreamEvent β → Option (Upstream β)
  | .deliver =>
      match src.pending with
      | [] => none
      | m :: rest => some (src.delivering m rest.length)
  | .publish p time => some { src with stream := src.stream.append p time }
  | .remove seq => some { src with stream := src.stream.remove seq }
  | .purge filter keep => some { src with stream := src.stream.purge filter keep }

/-- What one event delivers. -/
def out (src : Upstream β) : UpstreamEvent β → List (StoredMsg β × Nat)
  | .deliver =>
      match src.pending with
      | [] => []
      | m :: rest => [(m, rest.length)]
  | .publish .. | .remove _ | .purge .. => []

section

variable {src src' : Upstream β} {e : UpstreamEvent β} {stream : StreamState β}
  {filter : Text → Bool} {m : StoredMsg β} {ms rest : List (StoredMsg β)} {subject : Text}
  {live : β → Bool}

/-- **What one event does.** -/
inductive Step (src : Upstream β) : UpstreamEvent β → Upstream β → Prop where
  | deliver (m : StoredMsg β) (rest : List (StoredMsg β)) (hpending : src.pending = m :: rest) :
      Step src .deliver (src.delivering m rest.length)
  | publish (p : Publication β) (time : Nat) :
      Step src (.publish p time) { src with stream := src.stream.append p time }
  | remove (seq : Nat) : Step src (.remove seq) { src with stream := src.stream.remove seq }
  | purge (filter : Text) (keep : Nat) :
      Step src (.purge filter keep) { src with stream := src.stream.purge filter keep }

theorem step_of_eq (h : src.step e = some src') : Step src e src' := by
  cases e with
  | deliver =>
      cases hpending : src.pending with
      | nil =>
          simp only [step, hpending] at h
          cases h
      | cons m rest =>
          simp only [step, hpending, Option.some.injEq] at h
          exact h ▸ .deliver m rest hpending
  | publish p time => exact Option.some.inj h ▸ .publish p time
  | remove seq => exact Option.some.inj h ▸ .remove seq
  | purge filter keep => exact Option.some.inj h ▸ .purge filter keep

/-- What is delivered gets into the log. -/
theorem sent_step (h : src.step e = some src') : src'.sent = src.sent ++ src.out e := by
  cases step_of_eq h with
  | deliver m rest hpending =>
      simp only [out, hpending]
      rfl
  | publish | remove | purge => exact (List.append_nil _).symm

theorem pending_delivering (h : src.pending = m :: rest) :
    (src.delivering m rest.length).pending = rest :=
  Feed.pending_deliver h

theorem mem_msgs_of_pending (h : src.pending = m :: rest) :
    m ∈ src.stream.msgs ∧ src.feed.eligible m = true := by
  have hfirst : m ∈ src.pending := h ▸ List.mem_cons_self
  obtain ⟨hmem, -, heligible⟩ := Feed.mem_pending.1 hfirst
  exact ⟨hmem, heligible⟩

/-- **The consumer selects the last messages of the subjects.** -/
theorem mem_selected : m ∈ (create stream filter).pending ↔
    stream.lastFor m.subject = some m ∧ filter m.subject = true := by
  unfold pending
  rw [Feed.mem_pending]
  simp only [create, Feed.create, DeliverPolicy.includes, Bool.and_eq_true, Bool.or_eq_true,
    decide_eq_true_eq]
  constructor
  · rintro ⟨hm, -, hmatch, hnew | hlast⟩
    · exact absurd (stream.seq_bounds m hm).2 (Nat.not_le.2 hnew)
    · have hpos : stream.lastSeqFor m.subject ≠ 0 := hlast ▸ Nat.ne_of_gt (stream.seq_bounds m hm).1
      obtain ⟨last, hfound, hsame⟩ := StreamState.lastFor_of_lastSeqFor hpos
      rw [eq_of_seq_eq stream.ordered (StreamState.lastFor_mem hfound).1 hm (hsame.trans hlast)]
        at hfound
      exact ⟨hfound, hmatch⟩
  · rintro ⟨hlast, hmatch⟩
    have hm := (StreamState.lastFor_mem hlast).1
    exact ⟨hm, (stream.seq_bounds m hm).1, hmatch,
      .inr (by simp only [StreamState.lastSeqFor, hlast])⟩

/-- They are a part of the stream, in its order. -/
theorem selected_eq [DecidableEq β] : (create stream filter).pending =
    stream.msgs.filter fun m => stream.lastFor m.subject = some m && filter m.subject := by
  apply List.filter_congr
  intro m hm
  have hselected := @mem_selected _ stream filter m
  rw [pending, Feed.mem_pending, and_iff_right hm] at hselected
  rw [Bool.eq_iff_iff, Bool.and_eq_true, Bool.and_eq_true, decide_eq_true_eq, decide_eq_true_eq]
  exact hselected

/-! ## A subject beside writers -/

/-- The event leaves the last message of the subject, or puts one there that is live. -/
def Spares (live : β → Bool) (subject : Text) (src : Upstream β) : UpstreamEvent β → Prop
  | .deliver => True
  | .publish p _ => p.subject = subject → live p.body = true
  | .remove seq => src.stream.lastSeqFor subject ≠ seq
  | .purge filter keep =>
      (src.stream.purge filter keep).lastFor subject = src.stream.lastFor subject

instance [DecidableEq β] (live : β → Bool) (subject : Text) (src : Upstream β) :
    (e : UpstreamEvent β) → Decidable (src.Spares live subject e)
  | .deliver => isTrue trivial
  | .publish p _ => inferInstanceAs (Decidable (p.subject = subject → live p.body = true))
  | .remove seq => inferInstanceAs (Decidable (src.stream.lastSeqFor subject ≠ seq))
  | .purge filter keep =>
      inferInstanceAs
        (Decidable ((src.stream.purge filter keep).lastFor subject = src.stream.lastFor subject))

/-- A live message of the subject. -/
def Shows (live : β → Bool) (subject : Text) (x : StoredMsg β × Nat) : Prop :=
  x.1.subject = subject ∧ live x.1.body = true

/-- The subject is not passed over. -/
structure Covers (stream : StreamState β) (filter : Text → Bool) (live : β → Bool) (subject : Text)
    (src : Upstream β) : Prop where
  selected : filter subject = true
  eligible : src.feed.eligible = (Feed.create stream .LastPerSubject filter).eligible
  lastSeq : stream.lastSeq ≤ src.stream.lastSeq
  cursor : src.feed.cursor ≤ src.stream.lastSeq
  ahead : (∃ x ∈ src.sent, Shows live subject x) ∨
    ∃ m, src.stream.lastFor subject = some m ∧ live m.body = true ∧ m ∈ src.pending
  ends : ∀ front x, front ++ [x] <+: src.sent → x.2 = 0 → ∃ y ∈ front ++ [x], Shows live subject y

theorem covers_create (hlast : stream.lastFor m.subject = some m) (hmatch : filter m.subject = true)
    (hlive : live m.body = true) : (create stream filter).Covers stream filter live m.subject := by
  have hselected := mem_selected.2 ⟨hlast, hmatch⟩
  refine ⟨hmatch, rfl, Nat.le_refl _, Nat.zero_le _, .inr ⟨m, hlast, hlive, hselected⟩, ?_⟩
  intro front x hpre
  exact absurd (List.prefix_nil.1 hpre) (by simp)

/-- The stream changes. -/
theorem Covers.later {stream' : StreamState β} (h : src.Covers stream filter live subject)
    (hlater : StreamState.Later src.stream stream')
    (hahead : ∀ m, src.stream.lastFor subject = some m → live m.body = true →
      ∃ m', stream'.lastFor subject = some m' ∧ live m'.body = true ∧
        (m' = m ∨ src.stream.lastSeq < m'.seq)) :
    { src with stream := stream' }.Covers stream filter live subject := by
  refine { h with
    lastSeq := h.lastSeq.trans hlater.lastSeq, cursor := h.cursor.trans hlater.lastSeq,
    ahead := ?_ }
  rcases h.ahead with hsent | ⟨m, hlast, hlive, hpending⟩
  · exact .inl hsent
  · obtain ⟨m', hlast', hlive', hm'⟩ := hahead m hlast hlive
    refine .inr ⟨m', hlast', hlive', Feed.mem_pending.2 ⟨(StreamState.lastFor_mem hlast').1, ?_⟩⟩
    rcases hm' with rfl | hnew
    · exact (Feed.mem_pending.1 hpending).2
    · -- what is stored meanwhile is behind the consumer, and it is let through
      refine ⟨Nat.lt_of_le_of_lt h.cursor hnew, ?_⟩
      show src.feed.eligible m' = true
      rw [h.eligible]
      simp only [Feed.create, DeliverPolicy.includes, (StreamState.lastFor_mem hlast').2,
        h.selected, Nat.lt_of_le_of_lt h.lastSeq hnew, decide_true, Bool.true_or, Bool.and_true]

theorem Covers.deliver (h : src.Covers stream filter live subject)
    (hpending : src.pending = m :: rest) :
    (src.delivering m rest.length).Covers stream filter live subject := by
  have hmem := (mem_msgs_of_pending hpending).1
  refine { h with cursor := (src.stream.seq_bounds m hmem).2, ahead := ?_, ends := ?_ }
  · rcases h.ahead with ⟨x, hx, hshows⟩ | ⟨last, hlast, hlive, hahead⟩
    · exact .inl ⟨x, List.mem_append_left _ hx, hshows⟩
    · rw [hpending] at hahead
      rcases List.mem_cons.1 hahead with rfl | hlater
      · exact .inl ⟨_, List.mem_append_right _ List.mem_cons_self,
          (StreamState.lastFor_mem hlast).2, hlive⟩
      · exact .inr ⟨last, hlast, hlive, (pending_delivering hpending).symm ▸ hlater⟩
  · intro front x hpre hzero
    rcases List.prefix_concat_iff.1 hpre with heq | hearlier
    · rw [heq]
      obtain ⟨-, hx⟩ := List.append_inj' heq rfl
      cases hx
      rcases h.ahead with ⟨y, hy, hshows⟩ | ⟨last, hlast, hlive, hahead⟩
      · exact ⟨y, List.mem_append_left _ hy, hshows⟩
      · -- nothing is behind this message, so it is the one
        rw [hpending, List.length_eq_zero_iff.1 hzero, List.mem_singleton] at hahead
        rw [hahead] at hlast hlive
        exact ⟨_, List.mem_append_right _ List.mem_cons_self, (StreamState.lastFor_mem hlast).2,
          hlive⟩
    · exact h.ends front x hearlier hzero

/-- A write changes the stream alone. -/
theorem later_of_write (hwrite : e.isWrite = true) (hstep : Step src e src') :
    StreamState.Later src.stream src'.stream ∧ src' = { src with stream := src'.stream } := by
  cases hstep with
  | deliver => cases hwrite
  | publish p time => exact ⟨StreamState.later_append, rfl⟩
  | remove seq => exact ⟨StreamState.later_remove seq, rfl⟩
  | purge filter keep => exact ⟨StreamState.later_purge filter keep, rfl⟩

/-- **A write that spares a subject** leaves a live message at its end, the same or a new one. -/
theorem Spares.last (hspares : src.Spares live subject e) (hwrite : e.isWrite = true)
    (hstep : Step src e src') (hlast : src.stream.lastFor subject = some m)
    (hlive : live m.body = true) :
    ∃ m', src'.stream.lastFor subject = some m' ∧ live m'.body = true ∧
      (m' = m ∨ src.stream.lastSeq < m'.seq) := by
  cases hstep with
  | deliver => cases hwrite
  | publish p time =>
      by_cases hsubject : p.subject = subject
      · exact ⟨_, hsubject ▸ StreamState.lastFor_append, hspares hsubject,
          .inr (Nat.lt_succ_self _)⟩
      · exact ⟨m, (StreamState.lastFor_append_of_ne (Ne.symm hsubject)).trans hlast,
          hlive, .inl rfl⟩
  | remove seq => exact ⟨m, StreamState.lastFor_remove hspares hlast, hlive, .inl rfl⟩
  | purge filter keep => exact ⟨m, Eq.trans hspares hlast, hlive, .inl rfl⟩

/-- **What one event keeps of a subject that it spares.** -/
theorem Covers.step (h : src.Covers stream filter live subject)
    (hspares : src.Spares live subject e) (hstep : Step src e src') :
    src'.Covers stream filter live subject := by
  cases hwrite : e.isWrite with
  | true =>
      obtain ⟨hlater, heq⟩ := later_of_write hwrite hstep
      rw [heq]
      exact h.later hlater fun m hlast hlive => hspares.last hwrite hstep hlast hlive
  | false =>
      cases hstep with
      | deliver m rest hpending => exact h.deliver hpending
      | publish | remove | purge => cases hwrite

/-- **Who read up to a message with nothing behind it** saw the subject. -/
theorem Covers.seen {read : List (StoredMsg β × Nat)} (h : src.Covers stream filter live subject)
    (hread : read <+: src.sent) (hzero : ∃ x ∈ read, x.2 = 0) :
    ∃ y ∈ read, Shows live subject y := by
  obtain ⟨x, hx, hx0⟩ := hzero
  obtain ⟨front, back, hsplit⟩ := List.append_of_mem hx
  have hpre : front ++ [x] <+: read := ⟨back, by rw [hsplit, List.append_assoc]; rfl⟩
  obtain ⟨y, hy, hshows⟩ := h.ends front x (hpre.trans hread) hx0
  exact ⟨y, hpre.subset hy, hshows⟩

/-! ## Where the messages come from -/

/-- One of the events that occur publishes the message. -/
def Published (occurs : UpstreamEvent β → Prop) (m : StoredMsg β) : Prop :=
  ∃ p time, occurs (.publish p time) ∧ p.subject = m.subject ∧ p.body = m.body

theorem stored_step {occurs : UpstreamEvent β → Prop} (hstep : Step src e src') (he : occurs e)
    (hm : m ∈ src'.stream.msgs) : m ∈ src.stream.msgs ∨ Published occurs m := by
  cases hstep with
  | deliver => exact .inl hm
  | publish p time =>
      rcases StreamState.mem_append hm with hm | rfl
      · exact .inl hm
      · exact .inr ⟨p, time, he, rfl, rfl⟩
  | remove seq => exact .inl (List.mem_of_mem_filter hm)
  | purge filter keep => exact .inl ((dropMatching_sublist _ _).subset hm)

/-- What is stored and what was sent. -/
structure Sound (stream : StreamState β) (filter : Text → Bool) (occurs : UpstreamEvent β → Prop)
    (src : Upstream β) : Prop where
  eligible : src.feed.eligible = (Feed.create stream .LastPerSubject filter).eligible
  stored : ∀ m ∈ src.stream.msgs, m ∈ stream.msgs ∨ Published occurs m
  sent : ∀ x ∈ src.sent, filter x.1.subject = true ∧
    (stream.lastFor x.1.subject = some x.1 ∨ Published occurs x.1)

theorem sound_create (occurs : UpstreamEvent β → Prop) :
    (create stream filter).Sound stream filter occurs :=
  ⟨rfl, fun _ hm => .inl hm, nofun⟩

/-- **What one event keeps of the origin of the messages.** -/
theorem Sound.step {occurs : UpstreamEvent β → Prop} (h : src.Sound stream filter occurs)
    (he : occurs e) (hstep : Step src e src') : src'.Sound stream filter occurs := by
  have hstored : ∀ m ∈ src'.stream.msgs, m ∈ stream.msgs ∨ Published occurs m := fun m hm =>
    (stored_step hstep he hm).elim (h.stored m) .inr
  cases hstep with
  | deliver m rest hpending =>
      refine { h with sent := fun x hx => ?_ }
      rcases List.mem_append.1 hx with hx | hx
      · exact h.sent x hx
      · cases List.mem_singleton.1 hx
        obtain ⟨hmem, heligible⟩ := mem_msgs_of_pending hpending
        rw [h.eligible] at heligible
        refine ⟨(Bool.and_eq_true_iff.1 heligible).1, (h.stored m hmem).imp_left fun hold => ?_⟩
        exact (mem_selected.1
          (Feed.mem_pending.2 ⟨hold, (stream.seq_bounds m hold).1, heligible⟩)).1
  | publish | remove | purge => exact { h with stored := hstored }

/-! ## Without writers -/

/-- The messages with the number of those behind them. -/
def numbered : List (StoredMsg β) → List (StoredMsg β × Nat)
  | [] => []
  | m :: ms => (m, ms.length) :: numbered ms

theorem map_numbered (ms : List (StoredMsg β)) : (numbered ms).map Prod.fst = ms := by
  induction ms with
  | nil => rfl
  | cons m ms ih => exact congrArg (m :: ·) ih

theorem exists_zero (h : ms ≠ []) : ∃ x ∈ numbered ms, x.2 = 0 := by
  induction ms with
  | nil => exact absurd rfl h
  | cons m ms ih =>
      by_cases hnil : ms = []
      · exact ⟨(m, ms.length), List.mem_cons_self, List.length_eq_zero_iff.2 hnil⟩
      · obtain ⟨x, hx, hzero⟩ := ih hnil
        exact ⟨x, List.mem_cons_of_mem _ hx, hzero⟩

/-- With nothing behind it, a message is the last one. -/
theorem eq_of_zero {front : List (StoredMsg β × Nat)} (hfront : front <+: numbered ms)
    (hzero : ∃ x ∈ front, x.2 = 0) : front = numbered ms := by
  induction ms generalizing front with
  | nil => exact List.prefix_nil.1 hfront
  | cons m ms ih =>
      cases front with
      | nil =>
          obtain ⟨x, hx, -⟩ := hzero
          cases hx
      | cons y front =>
          obtain ⟨rfl, hrest⟩ := List.cons_prefix_cons.1 hfront
          obtain ⟨x, hx, hx0⟩ := hzero
          rcases List.mem_cons.1 hx with rfl | hx
          · have hnil : ms = [] := List.length_eq_zero_iff.1 hx0
            rw [hnil] at hrest
            rw [hnil, List.prefix_nil.1 hrest, numbered, numbered]
          · rw [ih hrest ⟨x, hx, hx0⟩, numbered]

/-- The deliveries so far, and those to come, counted down. -/
def Counted (ms : List (StoredMsg β)) (src : Upstream β) : Prop :=
  src.sent ++ numbered src.pending = numbered ms

theorem counted_create : (create stream filter).Counted (create stream filter).pending := rfl

theorem Counted.step (h : src.Counted ms) (hquiet : e.isWrite = false) (hstep : Step src e src') :
    src'.Counted ms := by
  cases hstep with
  | deliver m rest hpending =>
      unfold Counted at h ⊢
      rw [hpending, numbered, List.append_cons] at h
      rw [pending_delivering hpending]
      exact h
  | publish | remove | purge => cases hquiet

theorem Counted.sent_le (h : src.Counted ms) : src.sent <+: numbered ms :=
  h ▸ List.prefix_append _ _

/-- Nothing was sent yet. -/
theorem Counted.pending_eq (h : src.Counted ms) (hsent : src.sent = []) : src.pending = ms := by
  unfold Counted at h
  rw [hsent, List.nil_append] at h
  rw [← map_numbered ms, ← h, map_numbered]

/-- Everything was sent. -/
theorem Counted.sent_eq (h : src.Counted ms) (hpending : src.pending = []) :
    src.sent = numbered ms := by
  unfold Counted at h
  rw [hpending, numbered, List.append_nil] at h
  exact h

end

end Upstream

end NatsClient.JetStream
