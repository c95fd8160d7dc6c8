import NatsClient.Connection.Link
import NatsClient.Foundation.Run

/-!
# What a transport writes

Model of `send`, `maybeWriteFrame`, `close`, `disconnect` and `_closed` of `DenoTransport`
(`deno_transport.ts`), below the transport of the link: the frames that wait, the write that is
under way, and the socket, which takes the bytes of a write some at a time. A write that is rejected
stays under `pendingWrite`, so that none follows it.

The transport of the link only keeps the frames it was given; `writes_given` says that this one puts
their bytes on the wire in this order, each once, and that it idles only when all are there.
`_closed` awaits the write that is under way when it is called, not those behind it
(`disconnect_flushes_iff`).
-/

set_option autoImplicit false

namespace NatsClient.Deno

open NatsClient.Foundation NatsClient.Connection

/-- The promise under `pendingWrite`: the bytes of its frame that the socket has not taken, and
whether it was rejected. -/
structure PendingWrite where
  rest : List UInt8
  rejected : Bool
deriving DecidableEq, Repr

/-- Where `_closed` is: it awaits a write, or that write has settled and it goes on next. -/
inductive Closing where
  | awaiting
  | settled
deriving DecidableEq, Repr

/-- `DenoTransport`. `socket` says that the connection is open, `wire` is what it took;
`closedNotification` says that the deferred is resolved. -/
structure DenoTransport where
  done : Bool
  frames : List (List UInt8)
  pendingWrite : Option PendingWrite
  closing : Option Closing
  isInternal : Bool
  socket : Bool
  closedNotification : Bool
  wire : List UInt8
deriving DecidableEq, Repr

/-- What can happen: calls, and what the socket and the microtasks behind it do. -/
inductive Event where
  | send (frames : List Frame)
  | close (err isInternal : Bool)
  | accept (n : Nat)
  | written
  | rejected
  | resume
deriving DecidableEq, Repr

namespace DenoTransport

/-- A transport that is connected. -/
def new : DenoTransport := ⟨false, [], none, none, false, true, false, []⟩

/-- `maybeWriteFrame()`. -/
def maybeWriteFrame (t : DenoTransport) : DenoTransport :=
  match t.pendingWrite, t.frames with
  | none, frame :: frames => { t with frames := frames, pendingWrite := some ⟨frame, false⟩ }
  | some _, _ | none, [] => t

/-- `send(frame)`. -/
def send (t : DenoTransport) (frame : List UInt8) : DenoTransport :=
  if t.done then t else { t with frames := t.frames ++ [frame] }.maybeWriteFrame

/-- The end of `_closed`. -/
def closeSocket (t : DenoTransport) : DenoTransport :=
  { t with
    socket := false
    closing := none
    closedNotification := t.closedNotification || t.isInternal }

/-- `_closed` awaits the write that is under way. -/
def awaitWrite (t : DenoTransport) : DenoTransport :=
  match t.pendingWrite with
  | some write => { t with closing := some (if write.rejected then .settled else .awaiting) }
  | none => t.closeSocket

/-- `_closed(err, internal)` up to its `await`. -/
def close (t : DenoTransport) (err isInternal : Bool) : DenoTransport :=
  if t.done then t
  else if !err && isInternal then
    -- `Empty` is pushed so that there is a write to wait for
    { t with
      done := true
      isInternal := isInternal
      frames := t.frames ++ [[]] }.maybeWriteFrame.awaitWrite
  else { t with done := true, isInternal := isInternal }.closeSocket

/-- The continuations of a write that was resolved. -/
def written (t : DenoTransport) : DenoTransport :=
  { t with pendingWrite := none, closing := t.closing.map fun _ => .settled }.maybeWriteFrame

/-- The socket takes some bytes of the write. -/
def accept (t : DenoTransport) (rest : List UInt8) (n : Nat) : DenoTransport :=
  { t with pendingWrite := some ⟨rest.drop n, false⟩, wire := t.wire ++ rest.take n }

/-- A write is rejected, which is logged at most. -/
def reject (t : DenoTransport) (rest : List UInt8) : DenoTransport :=
  { t with pendingWrite := some ⟨rest, true⟩, closing := t.closing.map fun _ => .settled }

/-- One event; `none` where it cannot happen. The frames of one `send` are one frame, in bytes. -/
def step (encode : Frame → List UInt8) (t : DenoTransport) : Event → Option DenoTransport
  | .send frames => some (t.send (frames.flatMap encode))
  | .close err isInternal => some (t.close err isInternal)
  | .accept n =>
      match t.pendingWrite with
      | some ⟨rest, false⟩ =>
          if t.socket ∧ 0 < n ∧ n ≤ rest.length then some (t.accept rest n) else none
      | some ⟨_, true⟩ | none => none
  | .written =>
      match t.pendingWrite with
      | some ⟨[], false⟩ => some t.written
      | some ⟨_, _⟩ | none => none
  | .rejected =>
      match t.pendingWrite with
      | some ⟨rest, false⟩ => some (t.reject rest)
      | some ⟨_, true⟩ | none => none
  | .resume => if t.closing = some .settled then some t.closeSocket else none

/-- The bytes that wait, those of the write under way in front. -/
def outstanding (t : DenoTransport) : List UInt8 :=
  (match t.pendingWrite with
    | some write => write.rest
    | none => []) ++ t.frames.flatten

/-- The write that is under `pendingWrite` was rejected. -/
def Wedged (t : DenoTransport) : Prop := ∃ rest, t.pendingWrite = some ⟨rest, true⟩

/-- What the calls do to the transport of the link. -/
def call (t : Transport) : Event → Transport
  | .send frames => t.send frames
  | .close _ isInternal => t.close isInternal
  | .accept _ | .written | .rejected | .resume => t

/-- What the transport was given by the calls of a run. -/
def given (encode : Frame → List UInt8) (es : List Event) : List UInt8 :=
  (es.foldl call Transport.new).sent.flatMap encode

/-! ## One step -/

section

variable {encode : Frame → List UInt8} {t t' : DenoTransport} {e : Event}

/-- **What one event does.** -/
inductive Step (encode : Frame → List UInt8) (t : DenoTransport) :
    Event → DenoTransport → Prop where
  | send (frames : List Frame) : Step encode t (.send frames) (t.send (frames.flatMap encode))
  | close (err isInternal : Bool) : Step encode t (.close err isInternal) (t.close err isInternal)
  | accept (n : Nat) (rest : List UInt8) (hwrite : t.pendingWrite = some ⟨rest, false⟩)
      (hsocket : t.socket = true) (hpos : 0 < n) (hle : n ≤ rest.length) :
      Step encode t (.accept n) (t.accept rest n)
  | written (hwrite : t.pendingWrite = some ⟨[], false⟩) : Step encode t .written t.written
  | rejected (rest : List UInt8) (hwrite : t.pendingWrite = some ⟨rest, false⟩) :
      Step encode t .rejected (t.reject rest)
  | resume (hsettled : t.closing = some .settled) : Step encode t .resume t.closeSocket

theorem step_of_eq (h : t.step encode e = some t') : Step encode t e t' := by
  cases e with
  | send frames =>
      cases h
      exact Step.send frames
  | close err isInternal =>
      cases h
      exact Step.close err isInternal
  | accept n =>
      simp only [step] at h
      split at h
      · rename_i rest hwrite
        split at h
        · rename_i hguard
          cases h
          exact Step.accept n rest hwrite hguard.1 hguard.2.1 hguard.2.2
        · cases h
      · cases h
      · cases h
  | written =>
      simp only [step] at h
      split at h
      · rename_i hwrite
        cases h
        exact Step.written hwrite
      · cases h
      · cases h
  | rejected =>
      simp only [step] at h
      split at h
      · rename_i rest hwrite
        cases h
        exact Step.rejected rest hwrite
      · cases h
      · cases h
  | resume =>
      simp only [step] at h
      split at h
      · rename_i hsettled
        cases h
        exact Step.resume hsettled
      · cases h

theorem eq_of_step (h : Step encode t e t') : t.step encode e = some t' := by
  cases h with
  | send frames => rfl
  | close err isInternal => rfl
  | accept n rest hwrite hsocket hpos hle =>
      simp only [step, hwrite, hsocket, hpos, hle, and_self, if_true]
  | written hwrite => simp only [step, hwrite]
  | rejected rest hwrite => simp only [step, hwrite]
  | resume hsettled => rw [step, if_pos hsettled]

end

/-! ## The queue of frames -/

section

variable (t : DenoTransport)

theorem outstanding_of_write {t : DenoTransport} {write : PendingWrite}
    (h : t.pendingWrite = some write) : t.outstanding = write.rest ++ t.frames.flatten := by
  rw [outstanding, h]

theorem outstanding_of_idle {t : DenoTransport} (h : t.pendingWrite = none) :
    t.outstanding = t.frames.flatten := by
  rw [outstanding, h]
  rfl

/-- What `maybeWriteFrame` leaves as it is, and that it idles with an empty queue only. -/
theorem maybeWriteFrame_spec : t.maybeWriteFrame.outstanding = t.outstanding ∧
    t.maybeWriteFrame.wire = t.wire ∧ t.maybeWriteFrame.done = t.done ∧
    t.maybeWriteFrame.closing = t.closing ∧ t.maybeWriteFrame.isInternal = t.isInternal ∧
    t.maybeWriteFrame.socket = t.socket ∧
    t.maybeWriteFrame.closedNotification = t.closedNotification ∧
    (t.maybeWriteFrame.pendingWrite = none → t.maybeWriteFrame.frames = []) := by
  cases hwrite : t.pendingWrite with
  | some write =>
      have heq : t.maybeWriteFrame = t := by simp only [maybeWriteFrame, hwrite]
      rw [heq, hwrite]
      exact ⟨rfl, rfl, rfl, rfl, rfl, rfl, rfl, fun h => by cases h⟩
  | none =>
      cases hframes : t.frames with
      | nil =>
          have heq : t.maybeWriteFrame = t := by simp only [maybeWriteFrame, hwrite, hframes]
          rw [heq]
          exact ⟨rfl, rfl, rfl, rfl, rfl, rfl, rfl, fun _ => hframes⟩
      | cons frame frames =>
          have heq : t.maybeWriteFrame =
              { t with frames := frames, pendingWrite := some ⟨frame, false⟩ } := by
            simp only [maybeWriteFrame, hwrite, hframes]
          rw [heq]
          refine ⟨?_, rfl, rfl, rfl, rfl, rfl, rfl, fun h => by cases h⟩
          rw [outstanding_of_idle hwrite, hframes]
          rfl

theorem send_of_open {t : DenoTransport} (h : t.done = false) (frame : List UInt8) :
    t.send frame = maybeWriteFrame { t with frames := t.frames ++ [frame] } := by
  rw [send, h]
  rfl

theorem send_of_done {t : DenoTransport} (h : t.done = true) (frame : List UInt8) :
    t.send frame = t := by
  rw [send, if_pos h]

theorem close_of_done {t : DenoTransport} (h : t.done = true) (err isInternal : Bool) :
    t.close err isInternal = t := by
  rw [close, if_pos h]

theorem outstanding_append (frame : List UInt8) :
    outstanding { t with frames := t.frames ++ [frame] } = t.outstanding ++ frame := by
  rw [outstanding, outstanding, List.append_assoc, List.flatten_append, List.flatten_singleton]

/-- The end of `_closed` at once. -/
theorem close_now {t : DenoTransport} {err isInternal : Bool} (hopen : t.done = false)
    (hnow : (!err && isInternal) = false) :
    t.close err isInternal = closeSocket { t with done := true, isInternal := isInternal } := by
  rw [close, hopen, hnow]
  rfl

theorem awaitWrite_of_write {t : DenoTransport} {write : PendingWrite}
    (h : t.pendingWrite = some write) :
    t.awaitWrite = { t with closing := some (if write.rejected then .settled else .awaiting) } := by
  simp only [awaitWrite, h]

/-- **`disconnect()` awaits one write**: the one under way, or that of `Empty`. -/
theorem close_later {t : DenoTransport} (hopen : t.done = false) :
    ∃ write closing, (t.close false true).pendingWrite = some write ∧
      (t.close false true).closing = some closing ∧
      (t.close false true).outstanding = t.outstanding ∧ (t.close false true).wire = t.wire ∧
      (t.close false true).done = true ∧ (t.close false true).isInternal = true ∧
      (t.close false true).socket = t.socket ∧
      (t.close false true).closedNotification = t.closedNotification ∧
      (write.rejected = false → closing = .awaiting) := by
  let t₁ : DenoTransport := { t with done := true, isInternal := true, frames := t.frames ++ [[]] }
  obtain ⟨houtstanding, hwire, hdone, hclosing, hinternal, hsocket, hnotified, hidle⟩ :=
    maybeWriteFrame_spec t₁
  have hout : t₁.outstanding = t.outstanding :=
    (outstanding_append t []).trans (List.append_nil _)
  cases hwrite : t₁.maybeWriteFrame.pendingWrite with
  | none =>
      -- `Empty` is in the queue unless it is written
      have hsome : t₁.maybeWriteFrame.pendingWrite ≠ none := by
        intro hnone
        have hframes := hidle hnone
        cases hw : t.pendingWrite with
        | some write =>
            have heq : t₁.maybeWriteFrame = t₁ := by simp only [maybeWriteFrame, t₁, hw]
            rw [heq] at hframes
            exact List.append_ne_nil_of_right_ne_nil _ (List.cons_ne_nil _ _) hframes
        | none =>
            simp only [maybeWriteFrame, t₁, hw] at hnone
            cases hfs : t.frames ++ [[]] with
            | nil => exact List.append_ne_nil_of_right_ne_nil _ (List.cons_ne_nil _ _) hfs
            | cons frame frames =>
                rw [hfs] at hnone
                cases hnone
      exact absurd hwrite hsome
  | some write =>
      have heq : t.close false true = t₁.maybeWriteFrame.awaitWrite := by
        rw [close, hopen]
        rfl
      rw [heq, awaitWrite_of_write hwrite]
      refine ⟨write, _, hwrite, rfl, houtstanding.trans hout, hwire, hdone, hinternal, hsocket,
        hnotified, ?_⟩
      intro hgood
      rw [hgood]
      rfl

end

/-! ## Below the transport of the link -/

/-- A transport of the link, and this one behind the same calls. -/
structure Refines (encode : Frame → List UInt8) (t : Transport) (d : DenoTransport) : Prop where
  done : t.done = d.done
  notifies : t.notifies = true ↔ d.closedNotification = true ∨ d.closing ≠ none
  written : d.wire ++ d.outstanding = t.sent.flatMap encode
  idle : d.pendingWrite = none → d.frames = []
  /-- Nothing is awaited before a close, and what awaits is internal. -/
  before : d.done = false → d.closing = none ∧ d.closedNotification = false ∧ d.socket = true
  internal : d.closing ≠ none → d.isInternal = true

section

variable {encode : Frame → List UInt8} {t : Transport} {d d' : DenoTransport} {e : Event}

theorem refines_new (encode : Frame → List UInt8) : Refines encode Transport.new new where
  done := rfl
  notifies := by
    constructor
    · exact fun h => (Bool.false_ne_true h).elim
    · rintro (h | h)
      · exact h
      · exact absurd rfl h
  written := rfl
  idle _ := rfl
  before _ := ⟨rfl, rfl, rfl⟩
  internal h := absurd rfl h

theorem Refines.send (h : Refines encode t d) (frames : List Frame) :
    Refines encode (t.send frames) (d.send (frames.flatMap encode)) := by
  by_cases hdone : d.done = true
  · rw [send_of_done hdone, Transport.send_of_done (h.done.trans hdone)]
    exact h
  · rw [Bool.not_eq_true] at hdone
    rw [send_of_open hdone,
      Transport.send_of_open (by rw [h.done, hdone]; exact Bool.false_ne_true)]
    obtain ⟨houtstanding, hwire, hdone', hclosing, hinternal, hsocket, hnotified, hidle⟩ :=
      maybeWriteFrame_spec { d with frames := d.frames ++ [frames.flatMap encode] }
    constructor
    · exact h.done.trans hdone'.symm
    · rw [hnotified, hclosing]
      exact h.notifies
    · rw [hwire, houtstanding, outstanding_append, List.flatMap_append,
        ← List.append_assoc, h.written]
    · exact hidle
    · rw [hclosing, hnotified, hsocket]
      exact fun _ => h.before hdone
    · rw [hclosing, hinternal]
      exact h.internal

theorem Refines.close (h : Refines encode t d) (err isInternal : Bool) :
    Refines encode (t.close isInternal) (d.close err isInternal) := by
  by_cases hdone : d.done = true
  · rw [close_of_done hdone, Transport.close, if_pos (h.done.trans hdone)]
    exact h
  · rw [Bool.not_eq_true] at hdone
    obtain ⟨hclosing, hnotified, hsocket⟩ := h.before hdone
    rw [Transport.close, if_neg (by rw [h.done, hdone]; exact Bool.false_ne_true)]
    cases hlater : (!err && isInternal) with
    | false =>
        rw [close_now hdone hlater]
        refine ⟨rfl, ?_, h.written, h.idle, fun hopen => (Bool.false_ne_true hopen.symm).elim,
          fun hne => absurd rfl hne⟩
        simp only [closeSocket, hnotified, Bool.false_or, ne_eq, not_true_eq_false, or_false]
    | true =>
        have herr : err = false ∧ isInternal = true := by
          cases err <;> cases isInternal <;> simp_all
        obtain ⟨rfl, rfl⟩ := herr
        obtain ⟨write, closing, hwrite, hcl, houtstanding, hwire, hdone', hinternal, -,
            hnotified', -⟩ :=
          close_later hdone
        constructor
        · exact hdone'.symm
        · rw [hcl]
          exact ⟨fun _ => Or.inr (by simp only [ne_eq, reduceCtorEq, not_false_eq_true]),
            fun _ => rfl⟩
        · rw [hwire, houtstanding]
          exact h.written
        · intro hnone
          rw [hwrite] at hnone
          cases hnone
        · intro hopen
          rw [hdone'] at hopen
          cases hopen
        · exact fun _ => hinternal

theorem Refines.step (h : Refines encode t d) (hstep : Step encode d e d') :
    Refines encode (call t e) d' := by
  cases hstep with
  | send frames => exact h.send frames
  | close err isInternal => exact h.close err isInternal
  | accept n rest hwrite hsocket hpos hle =>
      refine ⟨h.done, h.notifies, ?_, fun hnone => ?_, h.before, h.internal⟩
      · -- the bytes go from the write to the wire
        rw [accept, outstanding_of_write rfl]
        have hsplit := h.written
        rw [outstanding_of_write hwrite] at hsplit
        rw [List.append_assoc, ← List.append_assoc (rest.take n), List.take_append_drop]
        exact hsplit
      · cases hnone
  | written hwrite =>
      obtain ⟨houtstanding, hwire, hdone, hclosing, hinternal, hsocket, hnotified, hidle⟩ :=
        maybeWriteFrame_spec
          { d with pendingWrite := none, closing := d.closing.map fun _ => .settled }
      have hmap : (d.closing.map fun _ => Closing.settled) ≠ none ↔ d.closing ≠ none := by
        rw [ne_eq, Option.map_eq_none_iff]
      constructor
      · exact h.done.trans hdone.symm
      · rw [DenoTransport.written, hnotified, hclosing, hmap]
        exact h.notifies
      · rw [DenoTransport.written, hwire, houtstanding]
        have hsplit := h.written
        rw [outstanding_of_write hwrite] at hsplit
        exact hsplit
      · exact hidle
      · rw [DenoTransport.written, hdone, hclosing, hnotified, hsocket]
        intro hopen
        obtain ⟨hnone, hrest⟩ := h.before hopen
        exact ⟨by rw [hnone]; rfl, hrest⟩
      · rw [DenoTransport.written, hclosing, hinternal, hmap]
        exact h.internal
  | rejected rest hwrite =>
      have hmap : (d.closing.map fun _ => Closing.settled) ≠ none ↔ d.closing ≠ none := by
        rw [ne_eq, Option.map_eq_none_iff]
      constructor
      · exact h.done
      · rw [reject, hmap]
        exact h.notifies
      · rw [reject, outstanding_of_write rfl]
        have hsplit := h.written
        rw [outstanding_of_write hwrite] at hsplit
        exact hsplit
      · intro hnone
        cases hnone
      · intro hopen
        obtain ⟨hnone, hrest⟩ := h.before hopen
        exact ⟨by rw [reject, hnone]; rfl, hrest⟩
      · rw [reject, hmap]
        exact h.internal
  | resume hsettled =>
      have hwaits : d.closing ≠ none := by
        rw [hsettled]
        exact Option.some_ne_none _
      have hinternal := h.internal hwaits
      refine ⟨h.done, ?_, h.written, h.idle, fun hopen => ?_, fun hne => absurd rfl hne⟩
      · rw [closeSocket, hinternal, Bool.or_true]
        exact ⟨fun _ => Or.inl rfl, fun _ => h.notifies.2 (Or.inr hwaits)⟩
      · exact absurd (h.before hopen).1 hwaits

theorem refines_foldl :
    ∀ {es : List Event} {t : Transport} {d d' : DenoTransport}, Refines encode t d →
    run (DenoTransport.step encode) d es = some d' → Refines encode (es.foldl call t) d' := by
  intro es
  induction es with
  | nil =>
      intro t d d' h hrun
      cases hrun
      exact h
  | cons e es ih =>
      intro t d d' h hrun
      obtain ⟨d₁, hstep, hrest⟩ := run_cons_inv hrun
      exact ih (h.step (step_of_eq hstep)) hrest

/-- **A rejected write is the last.** -/
theorem wire_of_wedged {es : List Event} (hwedged : d.Wedged)
    (hrun : run (DenoTransport.step encode) d es = some d') : d'.wire = d.wire := by
  have hinv : d'.Wedged ∧ d'.wire = d.wire := by
    refine invariant_run (I := fun s : DenoTransport => s.Wedged ∧ s.wire = d.wire)
      (fun s e s' hinv hstep => ?_) hrun ⟨hwedged, rfl⟩
    obtain ⟨⟨rest, hrest⟩, hwire⟩ := hinv
    -- nothing takes the write away
    have hkeeps : ∀ frames : List (List UInt8),
        maybeWriteFrame { s with frames := frames } = { s with frames := frames } := by
      intro frames
      simp only [maybeWriteFrame, hrest]
    cases step_of_eq hstep with
    | send frames =>
        by_cases hdone : s.done = true
        · rw [send_of_done hdone]
          exact ⟨⟨rest, hrest⟩, hwire⟩
        · rw [Bool.not_eq_true] at hdone
          rw [send_of_open hdone, hkeeps]
          exact ⟨⟨rest, hrest⟩, hwire⟩
    | close err isInternal =>
        by_cases hdone : s.done = true
        · rw [close_of_done hdone]
          exact ⟨⟨rest, hrest⟩, hwire⟩
        · rw [Bool.not_eq_true] at hdone
          cases hlater : (!err && isInternal) with
          | false =>
              rw [close_now hdone hlater]
              exact ⟨⟨rest, hrest⟩, hwire⟩
          | true =>
              have heq : s.close err isInternal =
                  { s with
                    done := true
                    isInternal := isInternal
                    frames := s.frames ++ [[]]
                    closing := some .settled } := by
                simp only [close, hdone, hlater, maybeWriteFrame, hrest, awaitWrite,
                  Bool.false_eq_true, if_false, if_true]
              rw [heq]
              exact ⟨⟨rest, hrest⟩, hwire⟩
    | accept n rest' hwrite _ _ _ =>
        rw [hrest] at hwrite
        cases hwrite
    | written hwrite =>
        rw [hrest] at hwrite
        cases hwrite
    | rejected rest' hwrite =>
        rw [hrest] at hwrite
        cases hwrite
    | resume _ => exact ⟨⟨rest, hrest⟩, hwire⟩
  exact hinv.2

/-- **The transport of the link, refined.** Behind any run it is done, and its closed notification
comes, exactly where that of the link says so. The socket took what it was given, in order and each
byte once, up to what is outstanding; an idle transport has nothing outstanding. Behind a rejected
write the socket takes nothing any more. -/
theorem writes_given (encode : Frame → List UInt8) (es : List Event) (d : DenoTransport)
    (h : run (DenoTransport.step encode) new es = some d) :
    (es.foldl call Transport.new).done = d.done ∧
      ((es.foldl call Transport.new).notifies = true ↔ d.closedNotification = true ∨
        d.closing ≠ none) ∧
      d.wire ++ d.outstanding = given encode es ∧
      (d.pendingWrite = none → d.wire = given encode es) ∧
      (d.Wedged → ∀ es' d', run (DenoTransport.step encode) d es' = some d' →
        d'.wire = d.wire) := by
  have hrefines := refines_foldl (refines_new encode) h
  refine ⟨hrefines.done, hrefines.notifies, hrefines.written, fun hidle => ?_,
    fun hwedged es' d' hrun => ?_⟩
  · have hwritten := hrefines.written
    rw [outstanding_of_idle hidle, hrefines.idle hidle, List.flatten_nil,
      List.append_nil] at hwritten
    exact hwritten
  · exact wire_of_wedged hwedged hrun

theorem writes_given_disconnect :
    ∃ d, run (DenoTransport.step fun _ => [1, 2]) new
      [.send [.pong], .accept 1, .close false true] = some d ∧
      d.wire ++ d.outstanding = given (fun _ => [1, 2])
      [.send [.pong], .accept 1, .close false true] :=
  ⟨_, rfl,
    (writes_given (fun _ => [1, 2]) [.send [.pong], .accept 1, .close false true] _ rfl).2.2.1⟩

end

/-! ## What a close leaves behind -/

/-- What a close waits for comes before the end of the socket: `disconnect()` waits for the write
under way, the other closes for nothing. -/
def Flushes (t : DenoTransport) (err isInternal : Bool) : Prop :=
  if !err && isInternal then t.frames.flatten = [] else t.outstanding = []

/-- A transport that closes, with no bytes behind the write that is awaited. -/
inductive Flushing (t : DenoTransport) : Prop where
  | awaiting (hawaits : t.closing = some .awaiting) (hsocket : t.socket = true)
      (hframes : t.frames.flatten = [])
  | empty (houtstanding : t.outstanding = [])

section

variable {encode : Frame → List UInt8} {t : Transport} {d d' : DenoTransport} {e : Event}

theorem Flushing.step (h : d.Flushing) (hdone : d.done = true) (hgood : e ≠ .rejected)
    (hstep : Step encode d e d') : d'.Flushing ∧ d'.done = true := by
  cases hstep with
  | send frames =>
      rw [send_of_done hdone]
      exact ⟨h, hdone⟩
  | close err isInternal =>
      rw [close_of_done hdone]
      exact ⟨h, hdone⟩
  | accept n rest hwrite hsocket hpos hle =>
      refine ⟨?_, hdone⟩
      cases h with
      | awaiting hawaits hsocket hframes => exact Flushing.awaiting hawaits hsocket hframes
      | empty houtstanding =>
          -- there are no bytes to take
          rw [outstanding_of_write hwrite, List.append_eq_nil_iff] at houtstanding
          have hempty : rest = [] := houtstanding.1
          rw [hempty, List.length_nil] at hle
          omega
  | written hwrite =>
      obtain ⟨houtstanding, -, hdone', -⟩ :=
        maybeWriteFrame_spec
          { d with pendingWrite := none, closing := d.closing.map fun _ => .settled }
      refine ⟨Flushing.empty (houtstanding.trans ?_), hdone'.trans hdone⟩
      cases h with
      | awaiting _ _ hframes => exact hframes
      | empty hempty =>
          rw [outstanding_of_write hwrite] at hempty
          exact hempty
  | rejected rest hwrite => exact absurd rfl hgood
  | resume hsettled =>
      refine ⟨?_, hdone⟩
      cases h with
      | awaiting hawaits _ _ =>
          rw [hawaits] at hsettled
          cases hsettled
      | empty houtstanding => exact Flushing.empty houtstanding

theorem Flushing.run : ∀ {es : List Event} {d d' : DenoTransport}, d.Flushing → d.done = true →
    .rejected ∉ es → run (DenoTransport.step encode) d es = some d' → d'.Flushing := by
  intro es
  induction es with
  | nil =>
      intro d d' h _ _ hrun
      cases hrun
      exact h
  | cons e es ih =>
      intro d d' h hdone hgood hrun
      obtain ⟨d₁, hstep, hrest⟩ := run_cons_inv hrun
      rw [List.mem_cons, not_or] at hgood
      obtain ⟨h₁, hdone₁⟩ := h.step hdone (Ne.symm hgood.1) (step_of_eq hstep)
      exact ih h₁ hdone₁ hgood.2 hrest

/-- `disconnect()` while a frame is written. -/
theorem disconnect_of_write {rest : List UInt8} (hopen : d.done = false)
    (hw : d.pendingWrite = some ⟨rest, false⟩) :
    d.close false true =
      { d with
        done := true
        isInternal := true
        frames := d.frames ++ [[]]
        closing := some .awaiting } := by
  simp only [close, hopen, maybeWriteFrame, hw, awaitWrite, Bool.false_eq_true, if_false,
    Bool.not_false, Bool.and_self, if_true]

/-- Without a rejected write, what is under way is a write. -/
theorem write_of_not_wedged {write : PendingWrite} (hw : d.pendingWrite = some write)
    (hgood : ¬ d.Wedged) : write = ⟨write.rest, false⟩ := by
  obtain ⟨rest, rejected⟩ := write
  cases rejected with
  | false => rfl
  | true => exact absurd ⟨rest, hw⟩ hgood

/-- A disconnect with an empty queue behind the write under way. -/
theorem flushing_disconnect (h : Refines encode t d) (hopen : d.done = false) (hgood : ¬ d.Wedged)
    (hframes : d.frames.flatten = []) : (d.close false true).Flushing := by
  obtain ⟨-, -, hsocket⟩ := h.before hopen
  cases hw : d.pendingWrite with
  | some write =>
      rw [disconnect_of_write hopen (hw.trans (congrArg some (write_of_not_wedged hw hgood)))]
      refine Flushing.awaiting rfl hsocket ?_
      show (d.frames ++ [[]]).flatten = []
      rw [List.flatten_append, hframes]
      rfl
  | none =>
      refine Flushing.empty ?_
      obtain ⟨_, _, -, -, houtstanding, -⟩ := close_later hopen
      rw [houtstanding, outstanding_of_idle hw]
      exact hframes

/-- Behind a close the transport of the link takes nothing. -/
theorem sent_foldl_of_done {es : List Event} : ∀ {t : Transport}, t.done = true →
    (es.foldl call t).sent = t.sent := by
  induction es with
  | nil => exact fun _ => rfl
  | cons e es ih =>
      intro t hdone
      have hcall : call t e = t := by
        cases e with
        | send frames => exact Transport.send_of_done hdone frames
        | close err isInternal => exact if_pos hdone
        | accept n => rfl
        | written => rfl
        | rejected => rfl
        | resume => rfl
      rw [List.foldl_cons, hcall]
      exact ih hdone

/-- The socket can take all of a write. -/
theorem exists_accept (encode : Frame → List UInt8) {rest : List UInt8}
    (hw : d.pendingWrite = some ⟨rest, false⟩) (hsocket : d.socket = true) :
    ∃ es, .rejected ∉ es ∧
      Foundation.run (DenoTransport.step encode) d es =
        some { d with pendingWrite := some ⟨[], false⟩, wire := d.wire ++ rest } := by
  cases hrest : rest with
  | nil =>
      subst hrest
      refine ⟨[], List.not_mem_nil, ?_⟩
      rw [Foundation.run, ← hw, List.append_nil]
  | cons b bs =>
      refine ⟨[.accept rest.length],
        by simp only [List.mem_singleton, reduceCtorEq, not_false_eq_true], ?_⟩
      have hpos : 0 < rest.length := by
        rw [hrest]
        exact Nat.succ_pos _
      rw [run_cons (eq_of_step (Step.accept rest.length rest hw hsocket hpos (Nat.le_refl _)))
        run_nil, accept, List.drop_length, List.take_length, hrest]

/-- Where bytes wait behind the write under way, the socket can end without them. -/
theorem disconnect_loses (h : Refines encode t d) (hopen : d.done = false) (hgood : ¬ d.Wedged)
    (hframes : d.frames.flatten ≠ []) :
    ∃ es' d', Foundation.run (DenoTransport.step encode) d (.close false true :: es') = some d' ∧
      .rejected ∉ es' ∧ d'.socket = false ∧ d'.wire ≠ d.wire ++ d.outstanding := by
  obtain ⟨-, -, hsocket⟩ := h.before hopen
  cases hw : d.pendingWrite with
  | none => exact absurd (by rw [h.idle hw]; rfl) hframes
  | some write =>
      have hw' := hw.trans (congrArg some (write_of_not_wedged hw hgood))
      have hclose := disconnect_of_write hopen hw'
      have hwrite : (d.close false true).pendingWrite = some ⟨write.rest, false⟩ := by
        rw [hclose]
        exact hw'
      obtain ⟨es, hes, haccept⟩ := exists_accept encode hwrite (by rw [hclose]; exact hsocket)
      let c : DenoTransport :=
        { d.close false true with
          pendingWrite := some ⟨[], false⟩
          wire := (d.close false true).wire ++ write.rest }
      obtain ⟨-, hwire, -, hclosing, -⟩ :=
        maybeWriteFrame_spec
          { c with pendingWrite := none, closing := c.closing.map fun _ => .settled }
      have hsettled : c.written.closing = some .settled := by
        rw [written, hclosing]
        simp only [c, hclose, Option.map_some]
      have hend : Foundation.run (DenoTransport.step encode) c [.written, .resume] =
          some c.written.closeSocket :=
        run_cons (eq_of_step (Step.written rfl))
          (run_cons (eq_of_step (Step.resume hsettled)) run_nil)
      refine ⟨es ++ [.written, .resume], c.written.closeSocket,
        run_cons (eq_of_step (Step.close false true)) (run_append haccept hend), ?_, rfl, ?_⟩
      · rw [List.mem_append, not_or]
        exact ⟨hes, by decide⟩
      · have hleft : c.written.closeSocket.wire = d.wire ++ write.rest := by
          rw [closeSocket, written, hwire]
          simp only [c, hclose]
        rw [hleft, outstanding_of_write hw, ← List.append_assoc]
        exact fun hsame => hframes (List.self_eq_append_right.1 hsame)

/-- A socket that has ended takes nothing. -/
theorem wire_of_ended {es : List Event} (hdone : d.done = true) (hended : d.socket = false)
    (hrun : Foundation.run (DenoTransport.step encode) d es = some d') : d'.wire = d.wire := by
  have hinv : d'.done = true ∧ d'.socket = false ∧ d'.wire = d.wire := by
    refine invariant_run (I := fun s : DenoTransport => s.done = true ∧ s.socket = false ∧
      s.wire = d.wire) (fun s e s' hinv hstep => ?_) hrun ⟨hdone, hended, rfl⟩
    obtain ⟨hdone, hended, hwire⟩ := hinv
    cases step_of_eq hstep with
    | send frames =>
        rw [send_of_done hdone]
        exact ⟨hdone, hended, hwire⟩
    | close err isInternal =>
        rw [close_of_done hdone]
        exact ⟨hdone, hended, hwire⟩
    | accept n rest _ hsocket _ _ =>
        rw [hended] at hsocket
        cases hsocket
    | written _ =>
        obtain ⟨-, hwire', hdone', -, -, hsocket', -⟩ :=
          maybeWriteFrame_spec
            { s with pendingWrite := none, closing := s.closing.map fun _ => .settled }
        exact ⟨hdone'.trans hdone, hsocket'.trans hended, hwire'.trans hwire⟩
    | rejected rest _ => exact ⟨hdone, hended, hwire⟩
    | resume _ => exact ⟨hdone, rfl, hwire⟩
  exact hinv.2.2

/-- **When a close loses nothing.** Let a transport be closed in any state in which no write was
rejected. All it was given is on the wire at the end of its socket, however the writes go on,
exactly if `disconnect()` finds no bytes behind the frame that is written, and another close none at
all. -/
theorem close_flushes_iff (encode : Frame → List UInt8) (es : List Event) (d : DenoTransport)
    (err isInternal : Bool) (h : Foundation.run (DenoTransport.step encode) new es = some d)
    (hopen : d.done = false) (hgood : ¬ d.Wedged) :
    (∀ es' d', Foundation.run (DenoTransport.step encode) d (.close err isInternal :: es') =
      some d' → .rejected ∉ es' → d'.socket = false → d'.wire = given encode es) ↔
      d.Flushes err isInternal := by
  have hrefines := refines_foldl (refines_new encode) h
  have hgiven : d.wire ++ d.outstanding = given encode es := hrefines.written
  rw [Flushes]
  cases hlater : (!err && isInternal) with
  | false =>
      -- the socket is closed at once, with what is outstanding
      have hclose := close_now hopen hlater
      rw [if_neg Bool.false_ne_true]
      constructor
      · intro hflushed
        have hwire :=
          hflushed [] _ (run_cons (eq_of_step (Step.close err isInternal)) run_nil) List.not_mem_nil
          (by rw [hclose]; rfl)
        rw [hclose, ← hgiven] at hwire
        exact List.self_eq_append_right.1 hwire
      · intro houtstanding es' d' hrun _ _
        obtain ⟨d₁, hstep, hrest⟩ := run_cons_inv hrun
        cases step_of_eq hstep with
        | close err isInternal =>
            rw [hclose] at hrest
            rw [wire_of_ended rfl rfl hrest, ← hgiven, houtstanding, List.append_nil]
            rfl
  | true =>
      -- the close of `disconnect()` waits for the frame that is being written
      have hkind : err = false ∧ isInternal = true := by
        cases err with
        | true => cases hlater
        | false => exact ⟨rfl, hlater⟩
      obtain ⟨rfl, rfl⟩ := hkind
      rw [if_pos rfl]
      constructor
      · intro hflushed
        by_contra hframes
        obtain ⟨es', d', hrun, hes', hended, hwire⟩ := disconnect_loses hrefines hopen hgood hframes
        exact hwire ((hflushed es' d' hrun hes' hended).trans hgiven.symm)
      · intro hframes es' d' hrun hes' hended
        obtain ⟨d₁, hstep, hrest⟩ := run_cons_inv hrun
        cases step_of_eq hstep with
        | close _ _ =>
            -- nothing is accepted behind the close: the write that is going on is the last
            have hdone : (d.close false true).done = true :=
              (hrefines.close false true).done.symm.trans (Transport.done_close _ _)
            have hflushing :=
              (flushing_disconnect hrefines hopen hgood hframes).run hdone hes' hrest
            have hwritten := (refines_foldl (hrefines.close false true) hrest).written
            rw [sent_foldl_of_done (Transport.done_close _ _), Transport.sent_close] at hwritten
            cases hflushing with
            | awaiting _ hsocket _ =>
                rw [hended] at hsocket
                cases hsocket
            | empty houtstanding =>
                rw [houtstanding, List.append_nil] at hwritten
                exact hwritten

/-- Of two frames in the queue the second can be lost. -/
theorem close_flushes_iff_two_frames :
    ∃ d, Foundation.run (DenoTransport.step fun _ => [1, 2]) new
      [.send [.pong], .send [.pong]] = some d ∧
      ¬ ∀ es' d', Foundation.run (DenoTransport.step fun _ => [1, 2]) d
        (.close false true :: es') = some d' → .rejected ∉ es' → d'.socket = false →
          d'.wire = given (fun _ => [1, 2]) [.send [.pong], .send [.pong]] := by
  refine ⟨⟨false, [[1, 2]], some ⟨[1, 2], false⟩, none, false, true, false, []⟩, rfl,
    fun hflushed => ?_⟩
  have hgood : ¬ Wedged ⟨false, [[1, 2]], some ⟨[1, 2], false⟩, none, false, true, false, []⟩ := by
    rintro ⟨rest, hrest⟩
    cases hrest
  have hflushes :=
    (close_flushes_iff (fun _ => [1, 2]) [.send [.pong], .send [.pong]] _ false true rfl
      rfl hgood).1
    hflushed
  revert hflushes
  exact List.cons_ne_nil _ _

end

end DenoTransport

end NatsClient.Deno
