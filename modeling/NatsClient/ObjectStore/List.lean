import NatsClient.Iterator.Losing
import NatsClient.Iterator.Stopping
import NatsClient.JetStream.Upstream
import NatsClient.ObjectStore.Bucket

/-!
# Listing the objects of a bucket

Model of `watch` and `list` (`objectstore.ts`). `watch` asks for the last entry of any object; where
there is none, it pushes `null` at once. It then starts a consumer whose callback pushes the
entries, and `null` behind the first one with nothing pending. `list` reads up to this `null`.

Other clients may write between any two steps. The answer to the question and what the client makes
of it are one step, and so are a delivery and its callback. A JSON text is kept as the record it is
read back to, and the stream holds the entries only: the filter lets no chunk through.

* `list_complete`: what a listing beside writers says;
* `list_ends`: which listings end;
* `list_exact`: a listing without writers.
-/

set_option autoImplicit false

namespace NatsClient.ObjectStore

open NatsClient.Foundation NatsClient.JetStream NatsClient.Iterator

/-- The options of `watch`. -/
structure WatchOptions where
  ignoreDeletes : Bool
  includeHistory : Bool
deriving DecidableEq, Repr

/-- The stream and its consumer, the variables of `watch`, and those of the loop of `list`. `found`
is the answer of `getMessage`, `some true` behind an error too; `pushed` is a log of what the
iterator took. -/
structure Listing (E : Type) where
  source : Upstream ServerObjectInfo
  found : Option Bool
  initialized : Bool
  created : Bool
  subscribed : Bool
  qi : QueuedIterator (Option ServerObjectInfo) Empty E
  buf : List ServerObjectInfo
  result : Option (Except E (List ServerObjectInfo))
  pushed : List (Option ServerObjectInfo)

/-- What can happen. -/
inductive ListEvent (E : Type) where
  | server (e : UpstreamEvent ServerObjectInfo)
  | answer
  | refuse (err : E)
  | create
  | subscribed
  | fail (err : E)
  | close
  | read
deriving DecidableEq, Repr

/-- Another client writes, or the stream drops something. -/
def ListEvent.isWrite {E : Type} : ListEvent E → Bool
  | .server e => e.isWrite
  | _ => false

/-- The question is answered with an error that is not a 404, the callback gets one, or the
subscription ends. -/
def ListEvent.isCut {E : Type} : ListEvent E → Bool
  | .refuse _ | .fail _ | .close => true
  | _ => false

/-- Nobody writes, and there is no error. -/
def ListEvent.isQuiet {E : Type} (e : ListEvent E) : Bool := !e.isWrite && !e.isCut

/-- `_metaSubjectAll()`. -/
def metaSubjectAll (name : Text) : Text := "$O.".toList ++ name ++ ".M.>".toList

namespace Listing

variable {E : Type}

/-- The iterators run no functions. -/
def silent : Empty → Effect E := fun f => f.elim

/-- The question is on its way; a consumer that does not exist delivers nothing. -/
def new (stream : StreamState ServerObjectInfo) : Listing E where
  source := ⟨stream, ⟨fun _ => false, 0, 0⟩, []⟩
  found := none
  initialized := false
  created := false
  subscribed := false
  qi := .new
  buf := []
  result := none
  pushed := []

/-- `qi.push(v)`. -/
def push (l : Listing E) (v : Option ServerObjectInfo) : Listing E :=
  { l with
    qi := l.qi.push v ⟨true, false⟩
    pushed := if l.qi.done then l.pushed else l.pushed ++ [v] }

section

variable (opts : WatchOptions) (name : Text)

/-- What `getMessage` says. -/
def answered (l : Listing E) : Listing E :=
  if l.source.stream.msgs.any fun m => subjectMatches (metaSubjectAll name) m.subject then
    { l with found := some true }
  else { l.push none with found := some false, initialized := true }

/-- The callback, on an entry with the number of those behind it. -/
def callback (l : Listing E) (x : StoredMsg ServerObjectInfo × Nat) : Listing E :=
  let oi := x.1.body
  let l := if oi.isDeleted && opts.ignoreDeletes then l else l.push (some oi)
  if x.2 = 0 && !l.initialized then { l.push none with initialized := true } else l

/-- The consumer is created, from the last entries of the objects or from here on. -/
def create (l : Listing E) : Listing E :=
  { l with
    initialized := l.initialized || !opts.includeHistory
    created := true
    source :=
      ⟨l.source.stream,
        Feed.create l.source.stream (if opts.includeHistory then .LastPerSubject else .New)
          (subjectMatches (metaSubjectAll name)), []⟩ }

/-- A round of the loop of `list`: the break stops the iterator. -/
def round (l : Listing E) (qi : QueuedIterator (Option ServerObjectInfo) Empty E) : Listing E :=
  match qi.consumer with
  | .presenting none _ => { l with qi := qi.finish none, result := some (.ok l.buf) }
  | .presenting (some info) _ => { l with qi, buf := l.buf ++ [info] }
  | .finished none => { l with qi, result := some (.ok l.buf) }
  | .finished (some err) => { l with qi, result := some (.error err) }
  | .idle | .waiting | .running _ => { l with qi }

/-- One event; `none` where it cannot happen. -/
def step (l : Listing E) : ListEvent E → Option (Listing E)
  | .server e =>
      (l.source.step e).map fun source => (l.source.out e).foldl (callback opts) { l with source }
  | .answer =>
      match l.found with
      | none => some (l.answered name)
      | some _ => none
  -- an error that is no 404; `watch` goes on all the same
  | .refuse err =>
      match l.found with
      | none => some { l with found := some true, qi := l.qi.stop (some err) }
      | some _ => none
  | .create => if l.found.isSome && !l.created then some (l.create opts name) else none
  | .subscribed => if l.created && !l.subscribed then some { l with subscribed := true } else none
  | .fail err => if l.created then some { l with qi := l.qi.stop (some err) } else none
  | .close => if l.subscribed then some { l with qi := l.qi.stop none } else none
  | .read =>
      if l.subscribed && l.result.isNone then (l.qi.next (fun _ => true) silent).map l.round
      else none

end

/-- The `watch` of `list`. -/
def options : WatchOptions := ⟨true, true⟩

section

variable {name : Text} {l l' l₁ l₂ : Listing E} {e : ListEvent E}
  {x : StoredMsg ServerObjectInfo × Nat} {vs ws : List (Option ServerObjectInfo)}

/-! ## Pushes -/

/-- Some values are pushed, and nothing else happens. -/
structure Pushes (vs : List (Option ServerObjectInfo)) (l l' : Listing E) : Prop where
  rest : l' = { l with qi := l'.qi, pushed := l'.pushed }
  done : l'.qi.done = l.qi.done
  consumer : l'.qi.consumer = l.qi.consumer
  yielded : l'.qi.yielded = l.qi.yielded
  pushed : l'.pushed = if l.qi.done then l.pushed else l.pushed ++ vs
  traced : l.qi.Traced (fun _ => true) (l.pushed.map .value) →
    l'.qi.Traced (fun _ => true) (l'.pushed.map .value)
  calm : ∀ done, l.qi.Calm done → l'.qi.Calm done

theorem pushes_nil (l : Listing E) : Pushes [] l l := by
  refine ⟨rfl, rfl, rfl, rfl, ?_, id, fun _ => id⟩
  rw [List.append_nil, ite_self]

theorem pushes_push (l : Listing E) (v : Option ServerObjectInfo) : Pushes [v] l (l.push v) := by
  have hpush : (l.push v).qi = l.qi.push v ⟨true, false⟩ := rfl
  refine ⟨rfl, ?_, ?_, ?_, rfl, fun htraced => ?_, fun done hcalm => hcalm.push v⟩
  · rw [hpush, QueuedIterator.push]
    split <;> rfl
  · rw [hpush, QueuedIterator.consumer_push]
  · rw [hpush, QueuedIterator.push]
    split <;> rfl
  · have hboth := htraced.push v (r := ⟨true, false⟩) rfl
    show (l.qi.push v ⟨true, false⟩).Traced _
        ((if l.qi.done then l.pushed else l.pushed ++ [v]).map .value)
    split at hboth
    · rename_i hdone
      rw [if_pos hdone]
      exact hboth
    · rename_i hopen
      rw [if_neg hopen, List.map_append]
      exact hboth

theorem Pushes.trans (h : Pushes vs l l₁) (h' : Pushes ws l₁ l₂) : Pushes (vs ++ ws) l l₂ := by
  refine ⟨?_, h'.done.trans h.done, h'.consumer.trans h.consumer, h'.yielded.trans h.yielded, ?_,
    fun htraced => h'.traced (h.traced htraced), fun done hcalm => h'.calm done (h.calm done hcalm)⟩
  · refine h'.rest.trans ?_
    rw [h.rest]
  · rw [h'.pushed, h.done, h.pushed]
    split
    · rfl
    · rw [List.append_assoc]

/-! ## The callback of a listing -/

/-- An entry that is listed. -/
def live (info : ServerObjectInfo) : Bool := !info.isDeleted

/-- What the callback pushes. -/
def said (initialized : Bool) (x : StoredMsg ServerObjectInfo × Nat) :
    List (Option ServerObjectInfo) :=
  (if live x.1.body then [some x.1.body] else []) ++ if x.2 = 0 && !initialized then [none] else []

theorem callback_eq (l : Listing E) (x : StoredMsg ServerObjectInfo × Nat) :
    ∃ l₁, Pushes (said l.initialized x) l l₁ ∧
      callback options l x = { l₁ with initialized := l.initialized || x.2 = 0 } := by
  have hentry : ∃ l₁, Pushes (if live x.1.body then [some x.1.body] else []) l l₁ ∧
      (if x.1.body.isDeleted && options.ignoreDeletes then l else l.push (some x.1.body)) = l₁ := by
    refine ⟨_, ?_, rfl⟩
    cases hdeleted : x.1.body.isDeleted with
    | true =>
        simp only [live, hdeleted, options]
        exact pushes_nil l
    | false =>
        simp only [live, hdeleted, options]
        exact pushes_push l _
  obtain ⟨l₁, hpushes, hl₁⟩ := hentry
  have hinitialized : l₁.initialized = l.initialized := by rw [hpushes.rest]
  simp only [callback, hl₁, hinitialized]
  by_cases hend : (decide (x.2 = 0) && !l.initialized) = true
  · refine ⟨l₁.push none, ?_, ?_⟩
    · rw [said, if_pos hend]
      exact hpushes.trans (pushes_push l₁ none)
    · rw [if_pos hend]
      have hzero := (Bool.and_eq_true_iff.1 hend).1
      rw [hzero, Bool.or_true]
  · refine ⟨l₁, ?_, ?_⟩
    · rw [said, if_neg hend, List.append_nil]
      exact hpushes
    · rw [if_neg hend]
      have hsame : (l.initialized || decide (x.2 = 0)) = l₁.initialized := by
        rw [hinitialized]
        cases hi : l.initialized with
        | true => rfl
        | false =>
            rw [hi, Bool.not_false, Bool.and_true] at hend
            rw [Bool.eq_false_iff.2 hend, Bool.or_false]
      rw [hsame]

theorem create_eq (l : Listing E) : l.create options name =
    { l with
      created := true
      source := Upstream.create l.source.stream (subjectMatches (metaSubjectAll name)) } := by
  simp [create, options, Upstream.create]

/-- What the callback leaves alone. -/
theorem callback_rest (l : Listing E) (x : StoredMsg ServerObjectInfo × Nat) :
    ∃ qi pushed initialized, callback options l x = { l with qi, pushed, initialized } := by
  obtain ⟨l₁, hpushes, heq⟩ := callback_eq l x
  refine ⟨l₁.qi, l₁.pushed, l.initialized || x.2 = 0, ?_⟩
  rw [heq, hpushes.rest]

/-- **What one event does.** -/
inductive Step (name : Text) (l : Listing E) : ListEvent E → Listing E → Prop where
  | deliver (m : StoredMsg ServerObjectInfo) (rest : List (StoredMsg ServerObjectInfo))
      (hpending : l.source.pending = m :: rest) :
      Step name l (.server .deliver)
        (callback options { l with source := l.source.delivering m rest.length } (m, rest.length))
  | write (e : UpstreamEvent ServerObjectInfo) (source : Upstream ServerObjectInfo)
      (hwrite : e.isWrite = true) (hsource : Upstream.Step l.source e source) :
      Step name l (.server e) { l with source }
  | answer (hnone : l.found = none) : Step name l .answer (l.answered name)
  | refuse (err : E) (hnone : l.found = none) :
      Step name l (.refuse err) { l with found := some true, qi := l.qi.stop (some err) }
  | create (hfound : l.found.isSome = true) (hnot : l.created = false) :
      Step name l .create (l.create options name)
  | subscribed (hcreated : l.created = true) (hnot : l.subscribed = false) :
      Step name l .subscribed { l with subscribed := true }
  | fail (err : E) (hcreated : l.created = true) :
      Step name l (.fail err) { l with qi := l.qi.stop (some err) }
  | close (hsub : l.subscribed = true) : Step name l .close { l with qi := l.qi.stop none }
  | read (qi : QueuedIterator (Option ServerObjectInfo) Empty E) (hsub : l.subscribed = true)
      (hopen : l.result = none) (hnext : l.qi.next (fun _ => true) silent = some qi) :
      Step name l .read (l.round qi)

theorem step_of_eq (h : step options name l e = some l') : Step name l e l' := by
  cases e with
  | server e =>
      obtain ⟨source, hsource, heq⟩ := Option.map_eq_some_iff.1 h
      have hstep := Upstream.step_of_eq hsource
      cases hwrite : e.isWrite with
      | true =>
          -- a write by itself sends nothing
          have hout : l.source.out e = [] := by
            cases e with
            | deliver => cases hwrite
            | publish | remove | purge => rfl
          rw [hout] at heq
          exact heq ▸ .write e source hwrite hstep
      | false =>
          cases hstep with
          | deliver m rest hpending =>
              simp only [Upstream.out, hpending] at heq
              exact heq ▸ .deliver m rest hpending
          | publish | remove | purge => cases hwrite
  | answer =>
      cases hfound : l.found with
      | none =>
          simp only [step, hfound, Option.some.injEq] at h
          exact h ▸ .answer hfound
      | some found =>
          simp only [step, hfound] at h
          cases h
  | refuse err =>
      cases hfound : l.found with
      | none =>
          simp only [step, hfound, Option.some.injEq] at h
          exact h ▸ .refuse err hfound
      | some found =>
          simp only [step, hfound] at h
          cases h
  | create =>
      obtain ⟨hboth, heq⟩ := Option.ite_none_right_eq_some.1 h
      rw [Bool.and_eq_true, Bool.not_eq_true'] at hboth
      exact Option.some.inj heq ▸ .create hboth.1 hboth.2
  | subscribed =>
      obtain ⟨hboth, heq⟩ := Option.ite_none_right_eq_some.1 h
      rw [Bool.and_eq_true, Bool.not_eq_true'] at hboth
      exact Option.some.inj heq ▸ .subscribed hboth.1 hboth.2
  | fail err =>
      obtain ⟨hcreated, heq⟩ := Option.ite_none_right_eq_some.1 h
      exact Option.some.inj heq ▸ .fail err hcreated
  | close =>
      obtain ⟨hsub, heq⟩ := Option.ite_none_right_eq_some.1 h
      exact Option.some.inj heq ▸ .close hsub
  | read =>
      obtain ⟨hboth, hmap⟩ := Option.ite_none_right_eq_some.1 h
      rw [Bool.and_eq_true, Option.isNone_iff_eq_none] at hboth
      obtain ⟨qi, hnext, heq⟩ := Option.map_eq_some_iff.1 hmap
      exact heq ▸ .read qi hboth.1 hboth.2 hnext

end

section

variable {name : Text} {l l' : Listing E} {e : ListEvent E} {x : StoredMsg ServerObjectInfo × Nat}
  {qi : QueuedIterator (Option ServerObjectInfo) Empty E}

/-- What a round makes of what the iterator presents. -/
inductive Round (l : Listing E) (qi : QueuedIterator (Option ServerObjectInfo) Empty E) :
    Listing E → Prop where
  | entry (info : ServerObjectInfo) (hyielded : qi.yielded = l.qi.yielded ++ [some info]) :
      Round l qi { l with qi, buf := l.buf ++ [info] }
  | last (hyielded : qi.yielded = l.qi.yielded ++ [none]) :
      Round l qi { l with qi := qi.finish none, result := some (.ok l.buf) }
  | ended (hyielded : qi.yielded = l.qi.yielded) (hfinished : qi.consumer = .finished none) :
      Round l qi { l with qi, result := some (.ok l.buf) }
  | failed (err : E) (hyielded : qi.yielded = l.qi.yielded)
      (hfinished : qi.consumer = .finished (some err)) :
      Round l qi { l with qi, result := some (.error err) }
  | turn (hyielded : qi.yielded = l.qi.yielded) (hopen : qi.consumer.isFinished = false) :
      Round l qi { l with qi }

theorem round_of_next (hnext : l.qi.next (fun _ => true) silent = some qi) :
    Round l qi (l.round qi) := by
  have hpresented := QueuedIterator.presented_next hnext
  unfold QueuedIterator.Presented at hpresented
  unfold round
  cases hc : qi.consumer with
  | presenting v batch =>
      rw [hc] at hpresented
      cases v with
      | none => exact .last hpresented
      | some info => exact .entry info hpresented
  | finished err =>
      rw [hc] at hpresented
      cases err with
      | none => exact .ended hpresented hc
      | some err => exact .failed err hpresented hc
  | idle | waiting | running batch =>
      rw [hc] at hpresented
      exact .turn hpresented (by rw [hc]; rfl)

/-- What a round leaves alone. -/
theorem round_rest (l : Listing E) (qi : QueuedIterator (Option ServerObjectInfo) Empty E) :
    ∃ qi' buf result, l.round qi = { l with qi := qi', buf, result } := by
  unfold round
  split <;> exact ⟨_, _, _, rfl⟩

/-! ## What a listing keeps -/

/-- What the callback pushes for some deliveries. -/
def script : Bool → List (StoredMsg ServerObjectInfo × Nat) → List (Option ServerObjectInfo)
  | _, [] => []
  | initialized, x :: xs => said initialized x ++ script (initialized || x.2 = 0) xs

theorem script_append (initialized : Bool) (xs ys : List (StoredMsg ServerObjectInfo × Nat)) :
    script initialized (xs ++ ys) =
      script initialized xs ++ script (initialized || xs.any fun x => x.2 = 0) ys := by
  induction xs generalizing initialized with
  | nil => rw [List.nil_append, List.any_nil, Bool.or_false, script, List.nil_append]
  | cons x xs ih =>
      rw [List.cons_append, script, script, ih, List.append_assoc, List.any_cons, Bool.or_assoc]

/-- There was no entry. -/
def missing (l : Listing E) : Bool := l.found = some false

/-- What is pushed as long as the iterator is open. -/
def ideal (l : Listing E) : List (Option ServerObjectInfo) :=
  (if l.missing then [none] else []) ++ script l.missing l.source.sent

/-- What a listing keeps. -/
structure Inv (l : Listing E) : Prop where
  traced : l.qi.Traced (fun _ => true) (l.pushed.map .value)
  waits : l.qi.consumer.isRunning = false
  dormant : l.created = false → l.source.sent = [] ∧ l.source.feed.eligible = fun _ => false
  found : l.created = true → l.found.isSome = true
  initialized : l.initialized = (l.missing || l.source.sent.any fun x => x.2 = 0)
  pushed : ∃ later, l.ideal = l.pushed ++ later ∧ (l.qi.done = false → later = [])
  ahead : l.result = none → l.qi.yielded = l.buf.map some
  result : ∀ infos, l.result = some (.ok infos) →
    l.qi.yielded = infos.map some ∨ l.qi.yielded = infos.map some ++ [none]

theorem inv_new (stream : StreamState ServerObjectInfo) : (new stream : Listing E).Inv where
  traced := QueuedIterator.traced_new
  waits := rfl
  dormant _ := ⟨rfl, rfl⟩
  found h := by cases h
  initialized := rfl
  pushed := ⟨[], rfl, fun _ => rfl⟩
  ahead _ := rfl
  result infos h := by cases h

/-- Nothing is delivered before the consumer exists. -/
theorem Inv.created {m : StoredMsg ServerObjectInfo} {rest : List (StoredMsg ServerObjectInfo)}
    (h : l.Inv) (hpending : l.source.pending = m :: rest) : l.created = true := by
  cases hcreated : l.created with
  | true => rfl
  | false =>
      have heligible := (Upstream.mem_msgs_of_pending hpending).2
      rw [(h.dormant hcreated).2] at heligible
      cases heligible

/-- The consumer is created behind the answer. -/
theorem Inv.not_created (h : l.Inv) (hnone : l.found = none) : l.created = false := by
  apply Bool.eq_false_iff.2
  intro hcreated
  have hfound := h.found hcreated
  rw [hnone] at hfound
  cases hfound

theorem Inv.deliver {m : StoredMsg ServerObjectInfo} {rest : List (StoredMsg ServerObjectInfo)}
    (h : l.Inv) (hpending : l.source.pending = m :: rest) :
    (callback options { l with source := l.source.delivering m rest.length }
      (m, rest.length)).Inv := by
  have hcreated := h.created hpending
  obtain ⟨l₁, hpushes, heq⟩ :=
    callback_eq { l with source := l.source.delivering m rest.length } (m, rest.length)
  obtain ⟨qi, pushed, rfl⟩ : ∃ qi pushed,
    l₁ = { l with source := l.source.delivering m rest.length, qi := qi, pushed := pushed } :=
      ⟨_, _, hpushes.rest⟩
  rw [heq]
  refine
    { traced := hpushes.traced h.traced
      waits := (congrArg _ hpushes.consumer).trans h.waits
      dormant := fun hnot => absurd (hcreated.symm.trans hnot) Bool.noConfusion
      found := h.found
      initialized := ?_
      pushed := ?_
      ahead := fun hnone => hpushes.yielded.trans (h.ahead hnone)
      result := fun infos hresult => ?_ }
  · show (l.initialized || _) = (l.missing || (l.source.sent ++ [(m, rest.length)]).any _)
    rw [h.initialized, List.any_append, Bool.or_assoc]
    simp
  · obtain ⟨later, hlater, hopen⟩ := h.pushed
    have hideal : (if l.missing then [none] else []) ++ script l.missing
        (l.source.sent ++ [(m, rest.length)]) = l.ideal ++ said l.initialized (m, rest.length) := by
      rw [script_append, ← h.initialized, script, script, List.append_nil, ← List.append_assoc]
      rfl
    have hpushed : pushed = if l.qi.done then l.pushed else l.pushed ++ said l.initialized
        (m, rest.length) :=
      hpushes.pushed
    have hdone : qi.done = l.qi.done := hpushes.done
    show ∃ later, (if l.missing then [none] else []) ++ script l.missing
      (l.source.sent ++ [(m, rest.length)]) = pushed ++ later ∧ (qi.done = false → later = [])
    rw [hideal, hlater, hpushed, hdone]
    -- an iterator that is stopped drops what it is given
    cases hd : l.qi.done with
    | true =>
        exact ⟨later ++ said l.initialized (m, rest.length), List.append_assoc ..,
          fun hf => (by cases hf)⟩
    | false => exact ⟨[], by rw [hopen hd, List.append_nil, List.append_nil]; rfl, fun _ => rfl⟩
  · have hyielded : qi.yielded = l.qi.yielded := hpushes.yielded
    show qi.yielded = _ ∨ qi.yielded = _
    rw [hyielded]
    exact h.result infos hresult

theorem Inv.answer (h : l.Inv) (hnone : l.found = none) : (l.answered name).Inv := by
  have hmissing : l.missing = false := by rw [missing, hnone]; rfl
  have hsent := (h.dormant (h.not_created hnone)).1
  unfold answered
  split
  · have hideal : ({ l with found := some true } : Listing E).ideal = l.ideal := by
      rw [ideal, ideal, hmissing]
      rfl
    refine { h with found := fun _ => rfl, initialized := ?_, pushed := hideal ▸ h.pushed }
    rw [h.initialized, hmissing]
    rfl
  · have hpushes := pushes_push l none
    obtain ⟨later, hlater, hopen⟩ := h.pushed
    rw [ideal, hmissing, hsent, if_neg Bool.false_ne_true, script, List.nil_append] at hlater
    have hpushed : l.pushed = [] := (List.append_eq_nil_iff.1 hlater.symm).1
    refine
      { traced := hpushes.traced h.traced
        waits := (congrArg _ hpushes.consumer).trans h.waits
        dormant := h.dormant
        found := fun _ => rfl
        initialized := rfl
        pushed := ?_
        ahead := fun hnone => hpushes.yielded.trans (h.ahead hnone)
        result := fun infos hresult => ?_ }
    · show ∃ later, [none] ++ script true l.source.sent = (l.push none).pushed ++ later ∧
        ((l.push none).qi.done = false → later = [])
      rw [hsent, hpushes.pushed, hpushes.done, hpushed]
      cases hd : l.qi.done with
      | true => exact ⟨[none], rfl, fun hf => (by cases hf)⟩
      | false => exact ⟨[], rfl, fun _ => rfl⟩
    · have hyielded : (l.push none).qi.yielded = l.qi.yielded := hpushes.yielded
      show (l.push none).qi.yielded = _ ∨ (l.push none).qi.yielded = _
      rw [hyielded]
      exact h.result infos hresult

/-- The iterator is stopped. -/
theorem Inv.stop (h : l.Inv) (err : Option E) : { l with qi := l.qi.stop err }.Inv := by
  have hyielded := QueuedIterator.yielded_stop l.qi err
  obtain ⟨later, hlater, -⟩ := h.pushed
  refine
    { h with
      traced := h.traced.stop _
      waits := (congrArg _ (QueuedIterator.consumer_stop l.qi err)).trans h.waits
      pushed := ⟨later, hlater, fun hopen => ?_⟩
      ahead := fun hnone => hyielded.trans (h.ahead hnone)
      result := fun infos hresult => ?_ }
  · rw [QueuedIterator.done_stop] at hopen
    cases hopen
  · show (l.qi.stop err).yielded = _ ∨ (l.qi.stop err).yielded = _
    rw [hyielded]
    exact h.result infos hresult

/-- A round of the loop. -/
theorem Inv.read (h : l.Inv) (hopen : l.result = none)
    (hnext : l.qi.next (fun _ => true) silent = some qi) : (l.round qi).Inv := by
  have htraced := h.traced.next hnext
  have hwaits := QueuedIterator.isRunning_next hnext
  have hahead := h.ahead hopen
  obtain ⟨later, hlater, hnone⟩ := h.pushed
  have hpushed : ∃ later, l.ideal = l.pushed ++ later ∧ (qi.done = false → later = []) := by
    refine ⟨later, hlater, fun hqi => hnone (Bool.eq_false_iff.2 fun hdone => ?_)⟩
    -- an iterator that is done stays so
    rw [QueuedIterator.done_next hdone hnext] at hqi
    cases hqi
  have hround := round_of_next hnext
  generalize l.round qi = l' at hround ⊢
  cases hround with
  | entry info hyielded =>
      refine { h with
        traced := htraced, waits := hwaits, pushed := hpushed, ahead := fun _ => ?_, result := ?_ }
      · show qi.yielded = (l.buf ++ [info]).map some
        rw [hyielded, hahead, List.map_append]
        rfl
      · exact fun infos hresult => absurd (hopen.symm.trans hresult) nofun
  | last hyielded =>
      obtain ⟨processed, hthrough⟩ := htraced
      refine
        { h with
          traced := ⟨processed, hthrough.finish none⟩
          waits := rfl
          pushed := ⟨later, hlater, fun hqi => ?_⟩
          ahead := nofun
          result := ?_ }
      · rw [QueuedIterator.done_finish] at hqi
        cases hqi
      · rintro infos ⟨⟩
        right
        show (qi.stop none).yielded = _
        -- the mark behind the last entry was yielded, and ends the list
        rw [QueuedIterator.yielded_stop, hyielded, hahead]
  | ended hyielded hfinished =>
      refine { h with
        traced := htraced, waits := hwaits, pushed := hpushed, ahead := nofun, result := ?_ }
      rintro infos ⟨⟩
      exact .inl (hyielded.trans hahead)
  | failed err hyielded hfinished =>
      refine { h with
        traced := htraced, waits := hwaits, pushed := hpushed, ahead := nofun, result := ?_ }
      intro infos hresult
      cases Option.some.inj hresult
  | turn hyielded hnot =>
      refine
        { h with
          traced := htraced, waits := hwaits, pushed := hpushed
          ahead := fun _ => hyielded.trans hahead, result := ?_ }
      exact fun infos hresult => absurd (hopen.symm.trans hresult) nofun

/-- **One event.** -/
theorem Inv.step (h : l.Inv) (hstep : Step name l e l') : l'.Inv := by
  cases hstep with
  | deliver m rest hpending => exact h.deliver hpending
  | write e source hwrite hsource =>
      have hsent : source.sent = l.source.sent ∧ source.feed = l.source.feed := by
        cases hsource with
        | deliver m rest hpending => cases hwrite
        | publish | remove | purge => exact ⟨rfl, rfl⟩
      -- a write sends nothing by itself, so the list to come is the same
      have hideal : ({ l with source } : Listing E).ideal = l.ideal := by
        show _ ++ script l.missing source.sent = _
        rw [hsent.1]
        rfl
      refine { h with dormant := fun hnot => ?_, initialized := ?_, pushed := hideal ▸ h.pushed }
      · exact ⟨hsent.1.trans (h.dormant hnot).1, (congrArg _ hsent.2).trans (h.dormant hnot).2⟩
      · show l.initialized = (l.missing || source.sent.any _)
        rw [hsent.1]
        exact h.initialized
  | answer hnone => exact h.answer hnone
  | refuse err hnone =>
      have hmissing : l.missing = false := by rw [missing, hnone]; rfl
      -- a refused question stops the iterator, which drops what comes later
      have hideal : ({ l with found := some true, qi := l.qi.stop (some err) } : Listing E).ideal =
        l.ideal := by
        rw [ideal, ideal, hmissing]
        rfl
      have hstop := h.stop (some err)
      refine { hstop with
        found := fun _ => rfl, initialized := ?_, pushed := hideal ▸ hstop.pushed }
      show l.initialized = (false || _)
      rw [h.initialized, hmissing]
  | create hfound hnot =>
      have hsent := (h.dormant hnot).1
      have hideal : (l.create options name).ideal = l.ideal := by
        rw [ideal, ideal, hsent]
        rfl
      refine
        { h with
          dormant := fun hcreated => (by cases hcreated)
          found := fun _ => hfound
          initialized := ?_
          pushed := hideal ▸ h.pushed }
      show (l.initialized || false) = (l.missing || false)
      rw [h.initialized, hsent]
      simp
  | subscribed hcreated hnot => exact { h with }
  | fail err hcreated => exact h.stop (some err)
  | close hsub => exact h.stop none
  | read qi hsub hopen hnext => exact h.read hopen hnext

end

section

variable {name : Text} {l l' : Listing E} {e : ListEvent E} {infos : List ServerObjectInfo}
  {sent : List (StoredMsg ServerObjectInfo × Nat)}

/-! ## The script -/

/-- The entries among some deliveries that are listed. -/
def kept (sent : List (StoredMsg ServerObjectInfo × Nat)) : List ServerObjectInfo :=
  (sent.filter fun x => live x.1.body).map fun x => x.1.body

theorem mem_kept {info : ServerObjectInfo} : info ∈ kept sent ↔
    ∃ x ∈ sent, live x.1.body = true ∧ x.1.body = info := by
  simp only [kept, List.mem_map, List.mem_filter, and_assoc]

theorem mem_script {initialized : Bool} {info : ServerObjectInfo}
    (h : some info ∈ script initialized sent) : info ∈ kept sent := by
  induction sent generalizing initialized with
  | nil => cases h
  | cons x xs ih =>
      rw [mem_kept]
      rcases List.mem_append.1 h with h | h
      · rcases List.mem_append.1 h with h | h
        · split at h
          · rename_i hlive
            cases List.mem_singleton.1 h
            exact ⟨x, List.mem_cons_self, hlive, rfl⟩
          · cases h
        · split at h
          · cases List.mem_singleton.1 h
          · cases h
      · obtain ⟨y, hy, hboth⟩ := mem_kept.1 (ih h)
        exact ⟨y, List.mem_cons_of_mem _ hy, hboth⟩

/-- `null` stands behind a message with nothing behind it. -/
theorem none_mem_script : none ∈ script false sent ↔ ∃ x ∈ sent, x.2 = 0 := by
  have hsome : ∀ sent, none ∉ script true sent := by
    intro sent
    induction sent with
    | nil => exact List.not_mem_nil
    | cons x xs ih =>
        rw [script, said, Bool.not_true, Bool.and_false, if_neg Bool.false_ne_true, List.append_nil,
          List.mem_append, Bool.true_or]
        rintro (h | h)
        · split at h
          · cases List.mem_singleton.1 h
          · cases h
        · exact ih h
  induction sent with
  | nil => simp [script]
  | cons x xs ih =>
      by_cases hzero : x.2 = 0
      · refine iff_of_true ?_ ⟨x, List.mem_cons_self, hzero⟩
        simp [script, said, hzero]
      · have hnot : none ∉ said false x := by
          rw [said, decide_eq_false hzero, Bool.false_and, if_neg Bool.false_ne_true,
            List.append_nil]
          split
          · simp
          · exact List.not_mem_nil
        rw [script, List.mem_append, or_iff_right hnot, decide_eq_false hzero, Bool.or_false]
        exact ih.trans (by simp [hzero])

/-- **What stands in front of the `null`**: the entries up to a message with nothing behind it. -/
theorem read_of_script (h : infos.map some ++ [none] <+: script false sent) :
    ∃ read, read <+: sent ∧ (∃ x ∈ read, x.2 = 0) ∧ infos = kept read := by
  induction sent generalizing infos with
  | nil => exact absurd (List.prefix_nil.1 h) (by simp)
  | cons x xs ih =>
      by_cases hzero : x.2 = 0
      · -- `null` is behind the entry of this message
        refine ⟨[x], List.prefix_append [x] xs, ⟨x, List.mem_singleton_self x, hzero⟩, ?_⟩
        rw [script, said, hzero] at h
        by_cases hlive : live x.1.body = true
        · rw [if_pos hlive] at h
          rcases infos with - | ⟨info, infos⟩
          · simp at h
          · rcases infos with - | ⟨info', infos⟩
            · have hinfo : info = x.1.body := by simpa using h
              rw [hinfo]
              simp [kept, hlive]
            · simp at h
        · rw [if_neg hlive] at h
          rcases infos with - | ⟨info, infos⟩
          · simp [kept, hlive]
          · simp at h
      · rw [script, said, decide_eq_false hzero, Bool.false_and, if_neg Bool.false_ne_true,
          List.append_nil, Bool.or_false] at h
        by_cases hlive : live x.1.body = true
        · rw [if_pos hlive] at h
          rcases infos with - | ⟨info, infos⟩
          · simp at h
          · obtain ⟨hinfo, hrest⟩ := List.cons_prefix_cons.1 h
            obtain ⟨read, hread, ⟨y, hy, hy0⟩, rfl⟩ := ih hrest
            refine ⟨x :: read, List.cons_prefix_cons.2 ⟨rfl, hread⟩,
              ⟨y, List.mem_cons_of_mem _ hy, hy0⟩, ?_⟩
            rw [Option.some.inj hinfo]
            simp [kept, hlive]
        · rw [if_neg hlive, List.nil_append] at h
          obtain ⟨read, hread, ⟨y, hy, hy0⟩, rfl⟩ := ih h
          refine ⟨x :: read, List.cons_prefix_cons.2 ⟨rfl, hread⟩,
            ⟨y, List.mem_cons_of_mem _ hy, hy0⟩, ?_⟩
          simp [kept, hlive]

/-- What is presented is a first part of what should be pushed. -/
theorem Inv.yielded_le (h : l.Inv) : l.qi.yielded <+: l.ideal := by
  obtain ⟨later, hlater, -⟩ := h.pushed
  have hle := h.traced.yielded_le
  rw [accepted_values] at hle
  exact hle.trans (hlater ▸ List.prefix_append _ _)

/-! ## Without errors -/

/-- Nothing has failed. -/
structure Smooth (l : Listing E) : Prop where
  calm : l.qi.Calm l.result.isSome
  whole : ∀ r, l.result = some r → ∃ infos, r = .ok infos ∧ l.qi.yielded = infos.map some ++ [none]

theorem smooth_new (stream : StreamState ServerObjectInfo) : (new stream : Listing E).Smooth :=
  ⟨QueuedIterator.calm_new, fun r h => (by cases h)⟩

theorem Smooth.step (h : l.Smooth) (hinv : l.Inv) (hcut : e.isCut = false)
    (hstep : Step name l e l') : l'.Smooth := by
  cases hstep with
  | deliver m rest hpending =>
      obtain ⟨l₁, hpushes, heq⟩ :=
        callback_eq { l with source := l.source.delivering m rest.length } (m, rest.length)
      have hresult : l₁.result = l.result := by rw [hpushes.rest]
      rw [heq]
      refine ⟨?_, fun r hr => ?_⟩
      · show l₁.qi.Calm l₁.result.isSome
        rw [hresult]
        exact hpushes.calm _ h.calm
      · obtain ⟨infos, hinfos, hyielded⟩ := h.whole r (hresult.symm.trans hr)
        exact ⟨infos, hinfos, hpushes.yielded.trans hyielded⟩
  | answer hnone =>
      unfold answered
      split
      · exact ⟨h.calm, h.whole⟩
      · have hpushes := pushes_push l none
        refine ⟨hpushes.calm _ h.calm, fun r hr => ?_⟩
        obtain ⟨infos, hinfos, hyielded⟩ := h.whole r hr
        exact ⟨infos, hinfos, hpushes.yielded.trans hyielded⟩
  | write | create | subscribed => exact ⟨h.calm, h.whole⟩
  | refuse | fail | close => cases hcut
  | read qi hsub hopen hnext =>
      have hcalm := h.calm
      rw [hopen] at hcalm
      have hcalm' := hcalm.next hnext
      obtain ⟨processed, hthrough⟩ := hinv.traced.next hnext
      -- nothing has stopped the iterator, so its generator has not ended
      have hnot : qi.consumer.isFinished = false := by
        apply Bool.eq_false_iff.2
        intro hfinished
        have hdone := hthrough.closed hfinished
        rw [hcalm'.done_eq] at hdone
        cases hdone
      have hround := round_of_next hnext
      generalize l.round qi = l' at hround ⊢
      cases hround with
      | entry info hyielded =>
          refine ⟨?_, fun r hr => absurd (hopen.symm.trans hr) nofun⟩
          show qi.Calm l.result.isSome
          rw [hopen]
          exact hcalm'
      | last hyielded =>
          refine ⟨hcalm'.finish, ?_⟩
          rintro r ⟨⟩
          refine ⟨l.buf, rfl, ?_⟩
          show (qi.stop none).yielded = _
          rw [QueuedIterator.yielded_stop, hyielded, hinv.ahead hopen]
      | ended hyielded hfinished | failed err hyielded hfinished =>
          rw [hfinished] at hnot
          cases hnot
      | turn hyielded =>
          refine ⟨?_, fun r hr => absurd (hopen.symm.trans hr) nofun⟩
          show qi.Calm l.result.isSome
          rw [hopen]
          exact hcalm'

theorem smooth_run {stream : StreamState ServerObjectInfo} {es : List (ListEvent E)}
    (hrun : run (Listing.step options name) (new stream) es = some l)
    (hcut : ∀ e ∈ es, e.isCut = false) : l.Smooth :=
  (invariant_run_of_forall (I := fun l => l.Inv ∧ l.Smooth)
    (fun _ _ _ h he hstep => ⟨h.1.step (step_of_eq hstep), h.2.step h.1 he (step_of_eq hstep)⟩)
    hrun hcut ⟨inv_new stream, smooth_new stream⟩).2

/-- **Where nothing can happen**, the listing waits for a `null` that is not pushed, or it is
over. -/
theorem Smooth.ends (h : l.Smooth) (hinv : l.Inv)
    (hstuck : ∀ e : ListEvent E, e.isWrite = false → e.isCut = false →
      Listing.step options name l e = none) :
    l.source.pending = [] ∧ l.created = true ∧ (l.result.isSome = true ↔ none ∈ l.ideal) := by
  obtain ⟨found, hfound⟩ : ∃ found, l.found = some found := by
    cases hf : l.found with
    | some found => exact ⟨found, rfl⟩
    | none =>
        have hnone := hstuck .answer rfl rfl
        simp only [Listing.step, hf] at hnone
        cases hnone
  have hcreated : l.created = true := by
    cases hc : l.created with
    | true => rfl
    | false =>
        have hnone := hstuck .create rfl rfl
        simp only [Listing.step, hfound, hc, Option.isSome_some, Bool.not_false, Bool.and_self,
          if_true] at hnone
        cases hnone
  have hsub : l.subscribed = true := by
    cases hs : l.subscribed with
    | true => rfl
    | false =>
        have hnone := hstuck .subscribed rfl rfl
        simp only [Listing.step, hcreated, hs, Bool.not_false, Bool.and_self, if_true] at hnone
        cases hnone
  refine ⟨?_, hcreated, ?_⟩
  · cases hp : l.source.pending with
    | nil => rfl
    | cons m rest =>
        have hnone := hstuck (.server .deliver) rfl rfl
        simp only [Listing.step, Upstream.step, hp, Option.map_some] at hnone
        cases hnone
  · cases hresult : l.result with
    | some r =>
        obtain ⟨infos, -, hyielded⟩ := h.whole r hresult
        refine iff_of_true rfl (hinv.yielded_le.subset ?_)
        rw [hyielded]
        exact List.mem_append_right _ (List.mem_singleton_self none)
    | none =>
        refine iff_of_false Bool.false_ne_true fun hmem => ?_
        have hread := hstuck .read rfl rfl
        simp only [Listing.step, hsub, hresult, Option.isNone_none, Bool.and_self, if_true,
          Option.map_eq_none_iff] at hread
        have hcalm := h.calm
        rw [hresult] at hcalm
        obtain ⟨later, hlater, hopen⟩ := hinv.pushed
        rw [hlater, hopen hcalm.done_eq, List.append_nil] at hmem
        obtain hfinished | ⟨-, hwaiting, hyields⟩ := hcalm.stuck hinv.waits hread
        · obtain ⟨processed, hthrough⟩ := hinv.traced
          have hdone := hthrough.closed (by rw [hfinished]; rfl)
          rw [hcalm.done_eq] at hdone
          cases hdone
        · -- a generator that waits has presented everything
          have hyielded := (hinv.traced.of_waiting hwaiting hyields).1
          rw [accepted_values, hinv.ahead hresult] at hyielded
          rw [← hyielded, List.mem_map] at hmem
          obtain ⟨info, -, hsome⟩ := hmem
          cases hsome

/-! ## An object beside writers -/

/-- The event leaves the last entry of the object, or puts one there that is not deleted. -/
def Spares (subject : Text) (l : Listing E) : ListEvent E → Prop
  | .server e => l.source.Spares live subject e
  | _ => True

instance (subject : Text) (l : Listing E) : (e : ListEvent E) → Decidable (l.Spares subject e)
  | .server e => inferInstanceAs (Decidable (l.source.Spares live subject e))
  | .answer | .refuse _ | .create | .subscribed | .fail _ | .close | .read => isTrue trivial

/-- The object is there until the consumer is created, and is not passed over then. -/
structure Covers (name subject : Text) (l : Listing E) : Prop where
  matched : subjectMatches (metaSubjectAll name) subject = true
  present : l.missing = false
  before : l.created = false → ∃ m, l.source.stream.lastFor subject = some m ∧ live m.body = true
  behind : l.created = true →
    ∃ stream, l.source.Covers stream (subjectMatches (metaSubjectAll name)) live subject

/-- **What one event keeps of an object that it spares.** -/
theorem Covers.step {subject : Text} (h : l.Covers name subject) (hinv : l.Inv)
    (hspares : l.Spares subject e) (hstep : Step name l e l') : l'.Covers name subject := by
  cases hstep with
  | deliver m rest hpending =>
      have hcreated := hinv.created hpending
      obtain ⟨stream, hcovers⟩ := h.behind hcreated
      obtain ⟨qi, pushed, initialized, heq⟩ :=
        callback_rest { l with source := l.source.delivering m rest.length } (m, rest.length)
      rw [heq]
      refine ⟨h.matched, h.present, fun hnot => ?_, fun _ => ⟨stream, hcovers.deliver hpending⟩⟩
      cases hcreated.symm.trans hnot
  | write e source hwrite hsource =>
      refine ⟨h.matched, h.present, fun hnot => ?_, fun hcreated => ?_⟩
      · obtain ⟨m, hlast, hlive⟩ := h.before hnot
        obtain ⟨m', hlast', hlive', -⟩ := Upstream.Spares.last hspares hwrite hsource hlast hlive
        exact ⟨m', hlast', hlive'⟩
      · obtain ⟨stream, hcovers⟩ := h.behind hcreated
        exact ⟨stream, hcovers.step hspares hsource⟩
  | answer hnone =>
      obtain ⟨m, hlast, hlive⟩ := h.before (hinv.not_created hnone)
      obtain ⟨hmem, hsubject⟩ := StreamState.lastFor_mem hlast
      -- the entry of the object is found
      have hany :
          (l.source.stream.msgs.any fun m => subjectMatches (metaSubjectAll name) m.subject) =
            true :=
        List.any_eq_true.2 ⟨m, hmem, hsubject ▸ h.matched⟩
      rw [answered, if_pos hany]
      exact ⟨h.matched, rfl, h.before, h.behind⟩
  | refuse err hnone => exact ⟨h.matched, rfl, h.before, h.behind⟩
  | create hfound hnot =>
      obtain ⟨m, hlast, hlive⟩ := h.before hnot
      refine ⟨h.matched, h.present, nofun, fun _ => ⟨l.source.stream, ?_⟩⟩
      have hsubject := (StreamState.lastFor_mem hlast).2
      rw [← hsubject] at hlast
      have hmatched := h.matched
      rw [← hsubject] at hmatched ⊢
      exact Upstream.covers_create hlast hmatched hlive
  | subscribed | fail | close => exact ⟨h.matched, h.present, h.before, h.behind⟩
  | read qi hsub hopen hnext =>
      obtain ⟨qi', buf, result, heq⟩ := round_rest l qi
      rw [heq]
      exact ⟨h.matched, h.present, h.before, h.behind⟩

/-! ## Where the entries come from -/

/-- What is stored and what was sent was there at the start, or is published meanwhile. -/
structure Origin (name : Text) (stream : StreamState ServerObjectInfo)
    (occurs : UpstreamEvent ServerObjectInfo → Prop) (l : Listing E) : Prop where
  eligible : ∀ m, l.source.feed.eligible m = true →
    subjectMatches (metaSubjectAll name) m.subject = true
  stored : ∀ m ∈ l.source.stream.msgs, m ∈ stream.msgs ∨ Upstream.Published occurs m
  sent : ∀ x ∈ l.source.sent, subjectMatches (metaSubjectAll name) x.1.subject = true ∧
    (x.1 ∈ stream.msgs ∨ Upstream.Published occurs x.1)

theorem Origin.step {stream : StreamState ServerObjectInfo}
    {occurs : UpstreamEvent ServerObjectInfo → Prop} (h : l.Origin name stream occurs)
    (he : ∀ e', e = .server e' → occurs e') (hstep : Step name l e l') :
    l'.Origin name stream occurs := by
  cases hstep with
  | deliver m rest hpending =>
      obtain ⟨qi, pushed, initialized, heq⟩ :=
        callback_rest { l with source := l.source.delivering m rest.length } (m, rest.length)
      rw [heq]
      refine { h with sent := fun x hx => ?_ }
      rcases List.mem_append.1 hx with hx | hx
      · exact h.sent x hx
      · cases List.mem_singleton.1 hx
        obtain ⟨hmem, heligible⟩ := Upstream.mem_msgs_of_pending hpending
        exact ⟨h.eligible m heligible, h.stored m hmem⟩
  | write e source hwrite hsource =>
      obtain ⟨-, heq⟩ := Upstream.later_of_write hwrite hsource
      have hfeed : source.feed = l.source.feed := by rw [heq]
      have hsent : source.sent = l.source.sent := by rw [heq]
      refine ⟨fun m hm => h.eligible m (hfeed ▸ hm), fun m hm => ?_,
        fun x hx => h.sent x (hsent ▸ hx)⟩
      exact (Upstream.stored_step hsource (he e rfl) hm).elim (h.stored m) .inr
  | answer hnone =>
      unfold answered
      split <;> exact ⟨h.eligible, h.stored, h.sent⟩
  | create hfound hnot =>
      rw [create_eq]
      exact ⟨fun m hm => (Bool.and_eq_true_iff.1 hm).1, h.stored,
        fun x hx => absurd hx List.not_mem_nil⟩
  | refuse | subscribed | fail | close => exact ⟨h.eligible, h.stored, h.sent⟩
  | read qi hsub hopen hnext =>
      obtain ⟨qi', buf, result, heq⟩ := round_rest l qi
      rw [heq]
      exact ⟨h.eligible, h.stored, h.sent⟩

/-! ## What a listing says -/

/-- An entry of the object that is not deleted, there at the start or published by one of the
events. -/
def Entry (stream : StreamState ServerObjectInfo) (es : List (ListEvent E)) (subject : Text)
    (info : ServerObjectInfo) : Prop :=
  live info = true ∧
    ∃ m : StoredMsg ServerObjectInfo, m.subject = subject ∧ m.body = info ∧
      (m ∈ stream.msgs ∨ Upstream.Published (fun e => ListEvent.server e ∈ es) m)

variable {stream : StreamState ServerObjectInfo} {es : List (ListEvent E)}

theorem origin_run (hrun : run (step options name) (new stream) es = some l) :
    l.Origin name stream fun e => ListEvent.server e ∈ es := by
  refine invariant_run_of_forall
    (I := fun l => l.Origin name stream fun e => ListEvent.server e ∈ es)
    (fun _ _ _ h he hstep => ?_) hrun (fun e he => (he : e ∈ es)) ⟨?_, fun _ hm => .inl hm, ?_⟩
  · refine h.step (fun e' heq => ?_) (step_of_eq hstep)
    rw [heq] at he
    exact he
  · intro m hm
    cases (hm : false = true)
  · intro x hx
    cases hx

theorem inv_run (hrun : run (step options name) (new stream) es = some l) : l.Inv :=
  invariant_run (fun _ _ _ h hstep => h.step (step_of_eq hstep)) hrun (inv_new stream)

/-- What is listed was delivered. -/
theorem Inv.mem_kept (h : l.Inv) (hresult : l.result = some (.ok infos)) {info : ServerObjectInfo}
    (hinfo : info ∈ infos) : info ∈ kept l.source.sent := by
  have hyielded : some info ∈ l.qi.yielded := by
    rcases h.result infos hresult with heq | heq
    · exact heq ▸ List.mem_map_of_mem hinfo
    · exact heq ▸ List.mem_append_left _ (List.mem_map_of_mem hinfo)
  rcases List.mem_append.1 (h.yielded_le.subset hyielded) with hnone | hscript
  · split at hnone
    · cases List.mem_singleton.1 hnone
    · cases hnone
  · exact mem_script hscript

/-- **Listing objects beside writers.** What is listed are entries that are not deleted, of objects
of the bucket, and were there at the start or were put meanwhile. In a run without errors every
object is listed that was there at the start and was spared: it may have been put again, but it was
not deleted. -/
theorem list_complete (name : Text) (stream : StreamState ServerObjectInfo) (l : Listing E)
    (es : List (ListEvent E)) (infos : List ServerObjectInfo)
    (hrun : run (step options name) (new stream) es = some l)
    (hresult : l.result = some (.ok infos)) :
    (∀ info ∈ infos, ∃ subject, subjectMatches (metaSubjectAll name) subject = true ∧
      Entry stream es subject info) ∧
      ((∀ e ∈ es, e.isCut = false) →
        ∀ subject m, subjectMatches (metaSubjectAll name) subject = true →
        stream.lastFor subject = some m → live m.body = true →
        Meets (step options name) (Spares subject) (new stream) es →
          ∃ info ∈ infos, Entry stream es subject info) := by
  have hinv := inv_run hrun
  have horigin := origin_run hrun
  refine ⟨fun info hinfo => ?_, fun hcut subject m hmatched hlast hlive hspared => ?_⟩
  · obtain ⟨x, hx, hlive, rfl⟩ := mem_kept.1 (hinv.mem_kept hresult hinfo)
    obtain ⟨hmatched, hfrom⟩ := horigin.sent x hx
    exact ⟨x.1.subject, hmatched, hlive, x.1, rfl, rfl, hfrom⟩
  · have hboth : l.Inv ∧ l.Covers name subject :=
      invariant_run_of_meets (I := fun l => l.Inv ∧ l.Covers name subject)
        (fun _ _ _ h hok hstep => ⟨h.1.step (step_of_eq hstep),
          h.2.step h.1 hok (step_of_eq hstep)⟩) hrun hspared
        ⟨inv_new stream, hmatched, rfl, fun _ => ⟨m, hlast, hlive⟩, nofun⟩
    have hsmooth := smooth_run hrun hcut
    obtain ⟨infos', hinfos, hyielded⟩ := hsmooth.whole _ hresult
    cases hinfos
    obtain ⟨-, hcovers⟩ := hboth
    have hle := hinv.yielded_le
    rw [hyielded, ideal, hcovers.present, if_neg Bool.false_ne_true, List.nil_append] at hle
    obtain ⟨read, hread, hzero, rfl⟩ := read_of_script hle
    -- a message was delivered, so there is a consumer
    have hcreated : l.created = true := by
      cases hc : l.created with
      | true => rfl
      | false =>
          obtain ⟨x, hx, -⟩ := hzero
          have hsent := hread.subset hx
          rw [(hinv.dormant hc).1] at hsent
          cases hsent
    obtain ⟨stream', hbehind⟩ := hcovers.behind hcreated
    obtain ⟨y, hy, hsubject, hy_live⟩ := hbehind.seen hread hzero
    refine ⟨y.1.body, mem_kept.2 ⟨y, hy, hy_live, rfl⟩, hy_live, y.1, hsubject, rfl, ?_⟩
    exact (horigin.sent y (hread.subset hy)).2

/-- An entry. -/
def entryOf (name : String) (deleted : Bool) : ServerObjectInfo where
  name
  description := none
  headers := none
  options := none
  metadata := none
  bucket := "b"
  nuid := none
  size := some 0
  chunks := some 0
  digest := none
  deleted
  mtime := none
  revision := none

/-- Its publication in the bucket `b`. -/
def publicationOf (name : String) (deleted : Bool) : Publication ServerObjectInfo :=
  ⟨"$O.b.M.".toList ++ name.toList, entryOf name deleted, true, none⟩

/-- A bucket with the objects `a` and `c`, and a deleted one. -/
def twoObjects : StreamState ServerObjectInfo :=
  (((StreamState.empty 1 Nat.one_pos).append (publicationOf "a" false) 0).append
    (publicationOf "d" true) 1).append (publicationOf "c" false) 2

/-- The object `a` is put again while the objects are listed. -/
theorem list_complete_put :
    ∃ (l : Listing Unit) (infos : List ServerObjectInfo) (es : List (ListEvent Unit)),
      l.result = some (.ok infos) ∧ infos.length = 3 ∧
        ∃ info ∈ infos, Entry twoObjects es "$O.b.M.a".toList info := by
  let s : Listing Unit := new twoObjects
  let es : List (ListEvent Unit) :=
    [.answer, .create, .server .deliver, .server (.publish (publicationOf "a" false) 3),
      .server .deliver, .server .deliver, .subscribed, .server .deliver, .read, .read, .read, .read]
  let infos := [entryOf "a" false, entryOf "c" false, entryOf "a" false]
  have hends : (run (step options "b".toList) s es).any (fun l => l.result = some (.ok infos)) =
      true := by
    decide +kernel
  obtain ⟨l, hrun, hl⟩ := (Option.any_eq_true _ _).1 hends
  have hresult := of_decide_eq_true hl
  refine ⟨l, infos, es, hresult, rfl, ?_⟩
  exact (list_complete "b".toList twoObjects l es infos hrun hresult).2
    (by decide +kernel) "$O.b.M.a".toList
    ⟨"$O.b.M.a".toList, 1, 0, entryOf "a" false⟩ (by decide +kernel) (by decide +kernel)
    (by decide +kernel) (by decide +kernel)

/-- **Which listings end.** In a run without errors, when nothing but a write can happen any more,
the listing has its entries exactly if there was no entry when `watch` asked, or a message was
delivered with nothing behind it. It waits for ever where the entries that there were are gone when
the consumer is created. -/
theorem list_ends (name : Text) (stream : StreamState ServerObjectInfo) (l : Listing E)
    (es : List (ListEvent E)) (hrun : run (step options name) (new stream) es = some l)
    (hcut : ∀ e ∈ es, e.isCut = false)
    (hstuck : ∀ e : ListEvent E, e.isWrite = false → e.isCut = false →
      step options name l e = none) :
    (∃ infos, l.result = some (.ok infos)) ↔ l.found = some false ∨
      ∃ x ∈ l.source.sent, x.2 = 0 := by
  have hinv := inv_run hrun
  have hsmooth := smooth_run hrun hcut
  obtain ⟨-, -, hends⟩ := hsmooth.ends hinv hstuck
  have hsome : (∃ infos, l.result = some (.ok infos)) ↔ l.result.isSome = true := by
    constructor
    · rintro ⟨infos, hresult⟩
      rw [hresult]
      rfl
    · intro hresult
      obtain ⟨r, hr⟩ := Option.isSome_iff_exists.1 hresult
      obtain ⟨infos, rfl, -⟩ := hsmooth.whole r hr
      exact ⟨infos, hr⟩
  rw [hsome, hends, ideal]
  by_cases hmissing : l.found = some false
  · have hyes : l.missing = true := decide_eq_true hmissing
    rw [hyes]
    exact iff_of_true (List.mem_append_left _ (List.mem_singleton_self none)) (.inl hmissing)
  · have hno : l.missing = false := decide_eq_false hmissing
    rw [hno, if_neg Bool.false_ne_true, List.nil_append, none_mem_script, or_iff_right hmissing]

/-- The entries are gone when the consumer is created, and the listing waits. -/
theorem list_ends_gone :
    ∃ l : Listing Unit, l.found = some true ∧ l.source.pending = [] ∧
      ¬ ∃ infos, l.result = some (.ok infos) := by
  let s : Listing Unit := new twoObjects
  let es : List (ListEvent Unit) :=
    [.answer, .server (.purge (metaSubjectAll "b".toList) 0), .create, .subscribed, .read]
  let others : List (ListEvent Unit) := [.server .deliver, .answer, .create, .subscribed, .read]
  have hends : (run (step options "b".toList) s es).any (fun l =>
      l.found = some true ∧ l.source.sent = [] ∧ l.source.pending = [] ∧
        others.all (fun e => (step options "b".toList l e).isNone) = true) = true := by
    decide +kernel
  obtain ⟨l, hrun, hl⟩ := (Option.any_eq_true _ _).1 hends
  obtain ⟨hfound, hsent, hpending, hnone⟩ := of_decide_eq_true hl
  have hstuck : ∀ e : ListEvent Unit, e.isWrite = false → e.isCut = false →
      step options "b".toList l e = none := by
    intro e hwrite hcut
    refine Option.isNone_iff_eq_none.1 (List.all_eq_true.1 hnone e ?_)
    cases e with
    | server e =>
        cases e with
        | deliver => decide
        | publish | remove | purge => cases hwrite
    | refuse | fail | close => cases hcut
    | answer | create | subscribed | read => decide
  refine ⟨l, hfound, hpending, fun hover => ?_⟩
  rcases (list_ends "b".toList twoObjects l es hrun (by decide) hstuck).1 hover with
    hmissing | ⟨x, hx, -⟩
  · cases hfound.symm.trans hmissing
  · rw [hsent] at hx
    cases hx

/-! ## Listings without writers -/

/-- What the runs without writers keep; `ms` is what the consumer selects. -/
structure Counted (name : Text) (stream : StreamState ServerObjectInfo) (l : Listing E) : Prop where
  unchanged : l.source.stream = stream
  found : ∀ found, l.found = some found →
    (found = false ↔ (Upstream.create stream (subjectMatches (metaSubjectAll name))).pending = [])
  source : l.created = true →
    l.source.Counted (Upstream.create stream (subjectMatches (metaSubjectAll name))).pending

/-- The question is answered as the consumer would. -/
theorem any_matches_iff (name : Text) (stream : StreamState ServerObjectInfo) :
    (stream.msgs.any fun m => subjectMatches (metaSubjectAll name) m.subject) = true ↔
      (Upstream.create stream (subjectMatches (metaSubjectAll name))).pending ≠ [] := by
  rw [List.any_eq_true]
  constructor
  · rintro ⟨m, hm, hmatched⟩ hnil
    have hne : stream.ofSubject m.subject ≠ [] :=
      List.ne_nil_of_mem (List.mem_filter.2 ⟨hm, decide_eq_true rfl⟩)
    obtain ⟨last, hlast⟩ : ∃ last, stream.lastFor m.subject = some last :=
      ⟨_, List.getLast?_eq_some_getLast hne⟩
    have hsubject := (StreamState.lastFor_mem hlast).2
    rw [← hsubject] at hlast hmatched
    have hselected := Upstream.mem_selected.2 ⟨hlast, hmatched⟩
    rw [hnil] at hselected
    cases hselected
  · intro hne
    obtain ⟨m, hm⟩ := List.exists_mem_of_ne_nil _ hne
    obtain ⟨hlast, hmatched⟩ := Upstream.mem_selected.1 hm
    exact ⟨m, (StreamState.lastFor_mem hlast).1, hmatched⟩

theorem Counted.step (h : l.Counted name stream) (hinv : l.Inv) (hquiet : e.isQuiet = true)
    (hstep : Step name l e l') : l'.Counted name stream := by
  obtain ⟨hwrite, hcut⟩ := Bool.and_eq_true_iff.1 hquiet
  cases hstep with
  | deliver m rest hpending =>
      have hcreated := hinv.created hpending
      obtain ⟨qi, pushed, initialized, heq⟩ :=
        callback_rest { l with source := l.source.delivering m rest.length } (m, rest.length)
      rw [heq]
      exact ⟨h.unchanged, h.found, fun _ => (h.source hcreated).step rfl (.deliver m rest hpending)⟩
  | write e source hwrites =>
      simp only [ListEvent.isWrite, hwrites, Bool.not_true] at hwrite
      cases hwrite
  | answer hnone =>
      have hany := any_matches_iff name stream
      unfold answered
      rw [h.unchanged]
      split
      · rename_i hsome
        refine ⟨h.unchanged, ?_, h.source⟩
        rintro found ⟨⟩
        exact iff_of_false Bool.noConfusion (hany.1 hsome)
      · rename_i hnone
        refine ⟨h.unchanged, ?_, h.source⟩
        rintro found ⟨⟩
        exact iff_of_true rfl (not_not.1 (mt hany.2 hnone))
  | create hfound hnot =>
      rw [create_eq, h.unchanged]
      exact ⟨rfl, h.found, fun _ => Upstream.counted_create⟩
  | refuse | fail | close => cases hcut
  | subscribed => exact ⟨h.unchanged, h.found, h.source⟩
  | read qi hsub hopen hnext =>
      obtain ⟨qi', buf, result, heq⟩ := round_rest l qi
      rw [heq]
      exact ⟨h.unchanged, h.found, h.source⟩

theorem kept_numbered (ms : List (StoredMsg ServerObjectInfo)) :
    kept (Upstream.numbered ms) = (ms.filter fun m => live m.body).map fun m => m.body := by
  conv_rhs => rw [← Upstream.map_numbered ms]
  rw [List.filter_map, List.map_map]
  rfl

/-- The objects of a bucket that are not deleted, in the order of their last entries. -/
def objects (name : Text) (stream : StreamState ServerObjectInfo) : List ServerObjectInfo :=
  ((stream.msgs.filter fun m =>
    stream.lastFor m.subject = some m && subjectMatches (metaSubjectAll name) m.subject).filter
      fun m => live m.body).map fun m => m.body

/-- **Listing objects without writers.** When nothing can happen any more, the listing has the
objects of the bucket, whether there are any or none. -/
theorem list_exact (name : Text) (stream : StreamState ServerObjectInfo) (l : Listing E)
    (es : List (ListEvent E)) (hrun : run (step options name) (new stream) es = some l)
    (hquiet : ∀ e ∈ es, e.isQuiet = true)
    (hstuck : ∀ e : ListEvent E, e.isQuiet = true → step options name l e = none) :
    l.result = some (.ok (objects name stream)) := by
  let ms := (Upstream.create stream (subjectMatches (metaSubjectAll name))).pending
  have hinv := inv_run hrun
  have hcut : ∀ e ∈ es, e.isCut = false := by
    intro e he
    have hboth := hquiet e he
    rw [ListEvent.isQuiet, Bool.and_eq_true, Bool.not_eq_true', Bool.not_eq_true'] at hboth
    exact hboth.2
  have hsmooth := smooth_run hrun hcut
  have hcounted : l.Inv ∧ l.Counted name stream := by
    refine invariant_run_of_forall (I := fun l => l.Inv ∧ l.Counted name stream)
      (fun _ _ _ h he hstep => ⟨h.1.step (step_of_eq hstep), h.2.step h.1 he (step_of_eq hstep)⟩)
      hrun hquiet ⟨inv_new stream, rfl, nofun, nofun⟩
  obtain ⟨-, hcounted⟩ := hcounted
  obtain ⟨hpending, hcreated, hends⟩ := hsmooth.ends hinv fun e hwrite hcut =>
    hstuck e (by rw [ListEvent.isQuiet, hwrite, hcut]; rfl)
  have hsent : l.source.sent = Upstream.numbered ms := (hcounted.source hcreated).sent_eq hpending
  obtain ⟨found, hfound⟩ := Option.isSome_iff_exists.1 (hinv.found hcreated)
  have hobjects : kept (Upstream.numbered ms) = objects name stream := by
    rw [kept_numbered, objects, ← Upstream.selected_eq]
  have hideal : l.ideal =
      (if found = false then [none] else []) ++ script (found = false) (Upstream.numbered ms) := by
    rw [ideal, missing, hfound, hsent]
    cases found <;> rfl
  have hread : ∀ infos, infos.map some ++ [none] <+: l.ideal → infos = objects name stream := by
    intro infos hle
    rw [hideal] at hle
    cases found with
    | false =>
        -- no entry was found, and there is none to deliver
        have hnil : ms = [] := (hcounted.found false hfound).1 rfl
        rw [← hobjects, hnil]
        rw [hnil] at hle
        rcases infos with - | ⟨info, infos⟩
        · rfl
        · simp [script, Upstream.numbered] at hle
    | true =>
        obtain ⟨read, hpre, hzero, rfl⟩ := read_of_script hle
        rw [Upstream.eq_of_zero hpre hzero, hobjects]
  have hmem : none ∈ l.ideal := by
    rw [hideal]
    cases found with
    | false => exact List.mem_append_left _ (List.mem_singleton_self none)
    | true =>
        have hne : ms ≠ [] := fun hnil => Bool.noConfusion ((hcounted.found true hfound).2 hnil)
        exact List.mem_append_right _ (none_mem_script.2 (Upstream.exists_zero hne))
  obtain ⟨r, hr⟩ := Option.isSome_iff_exists.1 (hends.2 hmem)
  obtain ⟨infos, rfl, hyielded⟩ := hsmooth.whole r hr
  rw [hr, hread infos (hyielded ▸ hinv.yielded_le)]

/-- Two of the three entries are listed. -/
theorem list_exact_two :
    ∃ l : Listing Unit, l.result = some (.ok (objects "b".toList twoObjects)) ∧
      objects "b".toList twoObjects = [entryOf "a" false, entryOf "c" false] := by
  let s : Listing Unit := new twoObjects
  let es : List (ListEvent Unit) :=
    [.answer, .create, .server .deliver, .server .deliver, .subscribed, .server .deliver, .read,
      .read, .read]
  let others : List (ListEvent Unit) := [.server .deliver, .answer, .create, .subscribed, .read]
  have hends : (run (step options "b".toList) s es).any (fun l =>
      others.all (fun e => (step options "b".toList l e).isNone) = true) = true := by
    decide +kernel
  obtain ⟨l, hrun, hl⟩ := (Option.any_eq_true _ _).1 hends
  have hstuck : ∀ e : ListEvent Unit, e.isQuiet = true → step options "b".toList l e = none := by
    intro e hquiet
    refine Option.isNone_iff_eq_none.1 (List.all_eq_true.1 (of_decide_eq_true hl) e ?_)
    cases e with
    | server e =>
        cases e with
        | deliver => decide
        | publish | remove | purge => cases hquiet
    | refuse | fail | close => cases hquiet
    | answer | create | subscribed | read => decide
  exact ⟨l, list_exact "b".toList twoObjects l es hrun (by decide) hstuck, by decide +kernel⟩

end

end Listing

end NatsClient.ObjectStore
