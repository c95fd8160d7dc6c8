import NatsClient.Connection.Stream

/-!
# One sid on both sides

What the client wants of a sid (`Wanted`), the commands for it that are on their way, and the entry
of the server's interest table, with the counts of messages on both sides. `Agrees` relates them: a
sid that is not wanted has no entry or ends with an UNSUB, and a wanted one has its entry, or it is
on its way, or the client will count to its limit. Each lemma is one thing that can happen to a sid.
-/

set_option autoImplicit false

namespace NatsClient.Connection

/-- A subscription of the table that is not draining, as far as the server is concerned, and how
many messages it received. -/
structure Wanted where
  subject : String
  queue : Option String
  limit : Option Nat
  received : Nat
deriving DecidableEq, Repr

/-- What the server does with a command for the sid. -/
def Interest.read (entry : Option Interest) (delivered : Nat) : SidCommand → Option Interest
  | .sub subject queue =>
      match entry with
      | none => some ⟨subject, queue, none⟩
      | some e => some e
  | .unsub none => none
  | .unsub (some max) =>
      match entry with
      | none => none
      | some e => if max ≤ delivered then none else some { e with limit := some max }

/-- What remains of an entry behind a delivery. -/
def Interest.deliver (e : Interest) (count : Nat) : Option Interest :=
  match e.limit with
  | some max => if max ≤ count then none else some e
  | none => some e

/-- A sid the client does not want. -/
structure Dead (pending : List SidCommand) (entry : Option Interest) : Prop where
  gone : pending = [] → entry = none
  last : pending ≠ [] → ∃ max, pending.getLast? = some (.unsub max)

/-- A sid the client wants; `on` says whether the connection is up. -/
structure Live (on : Bool) (w : Wanted) (pending : List SidCommand) (entry : Option Interest)
    (delivered inflight : Nat) : Prop where
  kept : SidCommand.unsub none ∉ pending
  subs : ∀ subject queue, .sub subject queue ∈ pending → subject = w.subject ∧ queue = w.queue
  /-- The last limit on its way is that of the client. -/
  last : ∀ max, .unsub max ∈ pending →
    ∃ k, w.limit = some k ∧ pending.getLast? = some (.unsub (some k))
  entry_eq : ∀ e, entry = some e → e.subject = w.subject ∧ e.queue = w.queue
  /-- With no limit on its way the server has that of the client. -/
  limit : ∀ e k, entry = some e → e.limit = some k → (∀ max, .unsub max ∉ pending) →
    w.limit = some k
  counted : delivered ≤ w.received + inflight
  interest : on = true → entry.isSome = true ∨ (∃ subject queue, .sub subject queue ∈ pending) ∨
    ∃ k, w.limit = some k ∧
      (k ≤ w.received + inflight ∨ pending.getLast? = some (.unsub (some k)))

/-- Both sides of a sid agree, but for what is on its way. -/
def Agrees (on : Bool) (w : Option Wanted) (pending : List SidCommand) (entry : Option Interest)
    (delivered inflight : Nat) : Prop :=
  match w with
  | some w => Live on w pending entry delivered inflight
  | none => Dead pending entry

/-- The last limit on its way suits the counts: a sid that is not wanted was served so often, or has
no entry, and one that is wanted has an entry, or the client will count so far. -/
def Suits (w : Option Wanted) (entry : Option Interest) (delivered inflight max : Nat) : Prop :=
  match w with
  | some w => entry.isSome = true ∨ max ≤ w.received + inflight
  | none => entry = none ∨ max ≤ delivered

instance (w : Option Wanted) (entry : Option Interest) (delivered inflight max : Nat) :
    Decidable (Suits w entry delivered inflight max) :=
  match w with
  | some _ => inferInstanceAs (Decidable (_ ∨ _))
  | none => inferInstanceAs (Decidable (_ ∨ _))

section

variable {on : Bool} {w : Wanted} {c : SidCommand} {pending : List SidCommand}
  {entry : Option Interest} {e : Interest} {delivered inflight : Nat}

/-- A sid is not wanted any more, or still not, and an UNSUB is sent. -/
theorem dead_append (pending : List SidCommand) (entry : Option Interest) (max : Option Nat) :
    Dead (pending ++ [.unsub max]) entry where
  gone h := by
    have hne := List.append_ne_nil_of_right_ne_nil pending (List.cons_ne_nil (.unsub max) [])
    exact absurd h hne
  last _ := ⟨max, List.getLast?_concat⟩

/-- A wanted sid gets a limit. -/
theorem Live.append (h : Live on w pending entry delivered inflight) (max : Nat) :
    Live on { w with limit := some max } (pending ++ [.unsub (some max)]) entry delivered
      inflight where
  kept hmem := by
    rcases List.mem_append.1 hmem with hmem | hmem
    · exact h.kept hmem
    · cases List.mem_singleton.1 hmem
  subs subject queue hmem := by
    rcases List.mem_append.1 hmem with hmem | hmem
    · exact h.subs subject queue hmem
    · cases List.mem_singleton.1 hmem
  last _ _ := ⟨max, rfl, List.getLast?_concat⟩
  entry_eq := h.entry_eq
  limit e k _ _ hnone := absurd (List.mem_append_right pending (List.mem_singleton.2 rfl)) (hnone _)
  counted := h.counted
  interest _ := Or.inr (Or.inr ⟨max, rfl, Or.inr List.getLast?_concat⟩)

/-- A new sid. -/
theorem live_new (on : Bool) (w : Wanted) : Live on w [.sub w.subject w.queue] none 0 0 where
  kept hmem := by cases List.mem_singleton.1 hmem
  subs subject queue hmem := by
    cases List.mem_singleton.1 hmem
    exact ⟨rfl, rfl⟩
  last max hmem := by cases List.mem_singleton.1 hmem
  entry_eq e he := by cases he
  limit e k he := by cases he
  counted := Nat.zero_le _
  interest _ := Or.inr (Or.inl ⟨w.subject, w.queue, List.mem_singleton.2 rfl⟩)

/-- Behind `prepare` nothing is on its way. -/
theorem agrees_prepare (w : Option Wanted) : Agrees false w [] none 0 0 := by
  cases w with
  | none => exact ⟨fun _ => rfl, fun h => absurd rfl h⟩
  | some w =>
      exact ⟨fun h => (by cases h), fun _ _ h => (by cases h), fun _ h => (by cases h),
        fun _ h => (by cases h), fun _ _ h => (by cases h), Nat.zero_le _, fun h => (by cases h)⟩

/-- A wanted sid is subscribed when the connection is up, in front of what is in the buffer. -/
theorem Live.connect (h : Live on w pending none 0 0) :
    Live true w (.sub w.subject w.queue :: pending) none 0 0 where
  kept hmem := by
    rcases List.mem_cons.1 hmem with heq | hmem
    · cases heq
    · exact h.kept hmem
  subs subject queue hmem := by
    rcases List.mem_cons.1 hmem with heq | hmem
    · cases heq
      exact ⟨rfl, rfl⟩
    · exact h.subs subject queue hmem
  last max hmem := by
    rcases List.mem_cons.1 hmem with heq | hmem
    · cases heq
    · obtain ⟨k, hk, hlast⟩ := h.last max hmem
      refine ⟨k, hk, ?_⟩
      rw [List.getLast?_cons, hlast]
      rfl
  entry_eq e he := by cases he
  limit e k he := by cases he
  counted := h.counted
  interest _ := Or.inr (Or.inl ⟨w.subject, w.queue, List.mem_cons_self⟩)

/-- A draining subscription of the table is subscribed too, and its UNSUB is behind. -/
theorem Dead.connect (h : Dead pending none) (hne : pending ≠ []) (c : SidCommand) :
    Dead (c :: pending) none where
  gone hnil := by cases hnil
  last _ := by
    obtain ⟨max, hlast⟩ := h.last hne
    refine ⟨max, ?_⟩
    rw [List.getLast?_cons, hlast]
    rfl

/-- A message is counted by the client. -/
theorem Live.receive (h : Live on w pending entry delivered (inflight + 1)) :
    Live on { w with received := w.received + 1 } pending entry delivered inflight where
  kept := h.kept
  subs := h.subs
  last := h.last
  entry_eq := h.entry_eq
  limit := h.limit
  counted := by
    have hcounted := h.counted
    show delivered ≤ w.received + 1 + inflight
    omega
  interest hon := by
    rcases h.interest hon with hentry | hsub | ⟨k, hk, hle | hlast⟩
    · exact Or.inl hentry
    · exact Or.inr (Or.inl hsub)
    · refine Or.inr (Or.inr ⟨k, hk, Or.inl ?_⟩)
      show k ≤ w.received + 1 + inflight
      omega
    · exact Or.inr (Or.inr ⟨k, hk, Or.inr hlast⟩)

/-- A message is sent to the sid, which has an entry. -/
theorem Live.deliver (h : Live on w pending (some e) delivered inflight) :
    Live on w pending (e.deliver (delivered + 1)) (delivered + 1) (inflight + 1) := by
  have hcounted := h.counted
  have hsame : ∀ e', e.deliver (delivered + 1) = some e' → e' = e := by
    intro e' he
    unfold Interest.deliver at he
    cases hlimit : e.limit with
    | none =>
        simp only [hlimit, Option.some.injEq] at he
        exact he.symm
    | some k =>
        simp only [hlimit] at he
        by_cases hk : k ≤ delivered + 1
        · rw [if_pos hk] at he
          cases he
        · rw [if_neg hk, Option.some.injEq] at he
          exact he.symm
  refine ⟨h.kept, h.subs, h.last, ?_, ?_, by omega, fun _ => ?_⟩
  · intro e' he
    rw [hsame e' he]
    exact h.entry_eq e rfl
  · intro e' k he hk hnone
    rw [hsame e' he] at hk
    exact h.limit e k rfl hk hnone
  · cases hlimit : e.limit with
    | none =>
        left
        rw [Interest.deliver, hlimit]
        rfl
    | some k =>
        by_cases hk : k ≤ delivered + 1
        · -- the entry is used up; the limit is the client's, or a new one is on its way
          by_cases hlater : ∃ max, SidCommand.unsub max ∈ pending
          · obtain ⟨max, hmem⟩ := hlater
            obtain ⟨k', hk', hlast⟩ := h.last max hmem
            exact Or.inr (Or.inr ⟨k', hk', Or.inr hlast⟩)
          · have hw : w.limit = some k :=
              h.limit e k rfl hlimit fun max hmem => hlater ⟨max, hmem⟩
            exact Or.inr (Or.inr ⟨k, hw, Or.inl (by omega)⟩)
        · left
          simp only [Interest.deliver, hlimit, if_neg hk]
          rfl

theorem Dead.deliver (h : Dead pending (some e)) (count : Nat) :
    Dead pending (e.deliver count) where
  gone hnil := by cases h.gone hnil
  last := h.last

/-- The server reads a command for a sid that is not wanted. -/
theorem Dead.read (h : Dead (c :: pending) entry)
    (hsuits : pending = [] → ∀ max, c = .unsub (some max) → entry = none ∨ max ≤ delivered) :
    Dead pending (Interest.read entry delivered c) where
  gone hnil := by
    subst hnil
    obtain ⟨max, hlast⟩ := h.last (List.cons_ne_nil c [])
    rw [List.getLast?_singleton, Option.some.injEq] at hlast
    subst hlast
    cases max with
    | none => rfl
    | some max =>
        rcases hsuits rfl max rfl with hentry | hle
        · rw [hentry]
          rfl
        · cases entry with
          | none => rfl
          | some e => simp only [Interest.read, if_pos hle]
  last hne := by
    obtain ⟨max, hlast⟩ := h.last (List.cons_ne_nil c pending)
    refine ⟨max, ?_⟩
    rw [List.getLast?_cons] at hlast
    cases hp : pending.getLast? with
    | none => exact absurd (List.getLast?_eq_none_iff.1 hp) hne
    | some x =>
        rw [hp] at hlast
        exact hlast

/-- The server reads a command for a wanted sid. -/
theorem Live.read (h : Live on w (c :: pending) entry delivered inflight)
    (hsuits : pending = [] → ∀ max, c = .unsub (some max) →
      entry.isSome = true ∨ max ≤ w.received + inflight) :
    Live on w pending (Interest.read entry delivered c) delivered inflight := by
  have hlast : ∀ max, SidCommand.unsub max ∈ pending →
      ∃ k, w.limit = some k ∧ pending.getLast? = some (.unsub (some k)) := by
    intro max hmem
    obtain ⟨k, hk, hlast⟩ := h.last max (List.mem_cons_of_mem c hmem)
    refine ⟨k, hk, ?_⟩
    rw [List.getLast?_cons] at hlast
    cases hp : pending.getLast? with
    | none =>
        rw [List.getLast?_eq_none_iff.1 hp] at hmem
        cases hmem
    | some x =>
        rw [hp] at hlast
        exact hlast
  have hkept : SidCommand.unsub none ∉ pending := fun hmem => h.kept (List.mem_cons_of_mem c hmem)
  have hsubs : ∀ subject queue, SidCommand.sub subject queue ∈ pending →
      subject = w.subject ∧ queue = w.queue :=
    fun subject queue hmem => h.subs subject queue (List.mem_cons_of_mem c hmem)
  cases c with
  | sub subject queue =>
      obtain ⟨hsubject, hqueue⟩ := h.subs subject queue List.mem_cons_self
      have hnew : ∀ e, Interest.read entry delivered (.sub subject queue) = some e →
          entry = some e ∨ e = ⟨subject, queue, none⟩ := by
        intro e he
        cases entry with
        | none => exact Or.inr (Option.some.inj he).symm
        | some e' => exact Or.inl he
      refine ⟨hkept, hsubs, hlast, ?_, ?_, h.counted, fun _ => Or.inl ?_⟩
      · intro e he
        rcases hnew e he with hentry | rfl
        · exact h.entry_eq e hentry
        · exact ⟨hsubject, hqueue⟩
      · intro e k he hk hnone
        rcases hnew e he with hentry | rfl
        · refine h.limit e k hentry hk fun max hmem => ?_
          rcases List.mem_cons.1 hmem with heq | hmem
          · cases heq
          · exact hnone max hmem
        · cases hk
      · cases entry <;> rfl
  | unsub max =>
      cases max with
      | none => exact absurd List.mem_cons_self h.kept
      | some max =>
          obtain ⟨k, hk, hend⟩ := h.last (some max) List.mem_cons_self
          have hsame : ∀ e, Interest.read entry delivered (.unsub (some max)) = some e →
              ∃ e', entry = some e' ∧ e.subject = e'.subject ∧ e.queue = e'.queue ∧
                e.limit = some max := by
            intro e he
            cases entry with
            | none => cases he
            | some e' =>
                simp only [Interest.read] at he
                by_cases hmax : max ≤ delivered
                · rw [if_pos hmax] at he
                  cases he
                · rw [if_neg hmax, Option.some.injEq] at he
                  exact ⟨e', rfl, by rw [← he], by rw [← he], by rw [← he]⟩
          refine ⟨hkept, hsubs, hlast, ?_, ?_, h.counted, fun hon => ?_⟩
          · intro e he
            obtain ⟨e', hentry, hsubject, hqueue, -⟩ := hsame e he
            rw [hsubject, hqueue]
            exact h.entry_eq e' hentry
          · intro e k' he hk' hnone
            obtain ⟨-, -, -, -, hlimit⟩ := hsame e he
            rw [hlimit, Option.some.injEq] at hk'
            subst hk'
            -- this limit was the last one
            have hnil : pending = [] := by
              by_contra hne
              rw [List.getLast?_cons] at hend
              cases hp : pending.getLast? with
              | none => exact hne (List.getLast?_eq_none_iff.1 hp)
              | some x =>
                  rw [hp] at hend
                  have hx : x = .unsub (some k) := Option.some.inj hend
                  exact hnone (some k) (hx ▸ List.mem_of_getLast? hp)
            rw [hnil, List.getLast?_singleton, Option.some.injEq] at hend
            cases hend
            exact hk
          · cases hp : pending.getLast? with
            | some x =>
                rw [List.getLast?_cons, hp] at hend
                have hx : x = .unsub (some k) := Option.some.inj hend
                rw [hx]
                exact Or.inr (Or.inr ⟨k, hk, Or.inr rfl⟩)
            | none =>
                have hnil : pending = [] := List.getLast?_eq_none_iff.1 hp
                subst hnil
                rw [List.getLast?_singleton, Option.some.injEq] at hend
                cases hend
                have hcounted := h.counted
                rcases hsuits rfl max rfl with hentry | hle
                · cases entry with
                  | none => cases hentry
                  | some e =>
                      by_cases hmax : max ≤ delivered
                      · exact Or.inr (Or.inr ⟨max, hk, Or.inl (by omega)⟩)
                      · left
                        simp only [Interest.read, if_neg hmax]
                        rfl
                · exact Or.inr (Or.inr ⟨max, hk, Or.inl hle⟩)

/-- **Nothing is on its way**: the server has exactly the entry that is wanted. -/
theorem Agrees.eq {w : Option Wanted} (h : Agrees true w [] entry delivered 0)
    (hbound : ∀ w', w = some w' → ∀ k, w'.limit = some k → w'.received < k) :
    entry.map (fun e => (e.subject, e.queue)) = w.map fun w => (w.subject, w.queue) := by
  cases w with
  | none => rw [(show Dead [] entry from h).gone rfl, Option.map_none, Option.map_none]
  | some w =>
      have hlive : Live true w [] entry delivered 0 := h
      cases hentry : entry with
      | some e =>
          obtain ⟨hsubject, hqueue⟩ := hlive.entry_eq e hentry
          rw [Option.map_some, Option.map_some, hsubject, hqueue]
      | none =>
          rcases hlive.interest rfl with hsome | ⟨subject, queue, hmem⟩ | ⟨k, hk, hle | hlast⟩
          · rw [hentry] at hsome
            cases hsome
          · cases hmem
          · have hlt := hbound w rfl k hk
            omega
          · cases hlast

end

end NatsClient.Connection
