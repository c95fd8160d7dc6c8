import NatsClient.Reconnect.Attempts

/-!
# Outages

A client that connected once loses its connection, and every dial fails. Its loop dials each server
as often as the limit allows, and ends with the error of the last dial.

* `Budget.effect`: what each pass of the loop spends;
* `lastError_effect`: what the loop throws;
* `bounded_reconnection`: all of it together.
-/

set_option autoImplicit false

namespace NatsClient.Reconnect

open NatsClient.Foundation

def Entry.isTried : Entry → Bool
  | tried _ => true
  | _ => false

/-- The error of the last failed dial. -/
def lastFailure : List Entry → Option (Option Reason)
  | [] => none
  | .failed _ err :: _ => some err
  | _ :: j => lastFailure j

namespace Event

/-- The passes of the `while`. -/
def passes : Event → Nat
  | pass _ _ _ => 1
  | _ => 0

/-- The events of the loop itself. -/
def ofLoop : Event → Bool
  | pass _ _ _ => true
  | wake => true
  | resolved _ => true
  | resolveFailed _ => true
  | fail _ => true
  | settle => true
  | _ => false

/-- The readings of the clock go on: none is before the end of the delay in front of it. -/
def Clocked (d : Dialer) : Event → Prop
  | pass _ now later => d.clock ≤ now ∧ now ≤ later
  | _ => True

/-- A cluster update that leaves the pool alone. -/
def KeepsPool (hostPort : String → String) (options : ConnectionOptions) (d : Dialer) :
    Event → Prop
  | info urls _ => options.ignoreClusterUpdates = true ∨
      (d.servers.update hostPort urls).1.servers = d.servers.servers
  | _ => True

/-- The delays are at most `W`. -/
def DelayAtMost (W : Nat) : Event → Prop
  | pass wait _ _ => wait ≤ W
  | _ => True

instance (d : Dialer) : (e : Event) → Decidable (e.Clocked d)
  | pass _ now later => inferInstanceAs (Decidable (d.clock ≤ now ∧ now ≤ later))
  | wake | resolved _ | resolveFailed _ | fail _ | settle | error _ | pong | info _ _ | lost _
  | notify | close => isTrue trivial

instance (hostPort : String → String) (options : ConnectionOptions) (d : Dialer) :
    (e : Event) → Decidable (e.KeepsPool hostPort options d)
  | info _ _ => inferInstanceAs (Decidable (_ = true ∨ _ = d.servers.servers))
  | pass _ _ _ | wake | resolved _ | resolveFailed _ | fail _ | settle | error _ | pong | lost _
  | notify | close => isTrue trivial

instance (W : Nat) : (e : Event) → Decidable (e.DelayAtMost W)
  | pass wait _ _ => inferInstanceAs (Decidable (wait ≤ W))
  | wake | resolved _ | resolveFailed _ | fail _ | settle | error _ | pong | info _ _ | lost _
  | notify | close => isTrue trivial

end Event

namespace Dialer

variable {hostPort : String → String} {options : ConnectionOptions} {closed : Bool}
  {d d' : Dialer} {e : Event} {n W b : Nat}

/-! ## The clock -/

/-- No server of the pool was dialed after the clock. -/
structure Timed (d : Dialer) : Prop where
  started : 0 ≤ d.clock
  last : ∀ s ∈ d.servers.servers, (d.servers.impl s).lastConnect ≤ d.clock

theorem Timed.of_same (h : d.Timed) (hclock : d'.clock = d.clock)
    (hpool : ∀ s ∈ d'.servers.servers, s ∈ d.servers.servers)
    (hlast : ∀ s, (d'.servers.impl s).lastConnect = (d.servers.impl s).lastConnect) : d'.Timed := by
  refine ⟨hclock ▸ h.started, fun s hs => ?_⟩
  rw [hlast, hclock]
  exact h.last s (hpool s hs)

theorem Timed.tryServer (h : d.Timed) (srv : Nat) {wait now later : Int} (hnow : d.clock ≤ now)
    (hlater : now ≤ later) (hmem : srv ∈ d.servers.servers) :
    (d.tryServer srv wait now later).Timed := by
  have hstart := h.started
  have hlast := h.last srv hmem
  rw [Dialer.tryServer]
  split
  · refine ⟨by dsimp only; omega, fun s hs => ?_⟩
    have hold := h.last s hs
    show ((d.servers.modify srv (·.dialedAt later)).impl s).lastConnect ≤ later
    rw [Servers.modify_impl]
    split
    · exact Int.le_refl later
    · omega
  · refine ⟨by dsimp only; omega, fun s hs => ?_⟩
    have hold := h.last s hs
    dsimp only
    omega

/-- **The clock is ahead of the dials.** -/
theorem Timed.effect (h : d.Timed) (hsound : d.Sound) (hclocked : e.Clocked d)
    (hfirst : d.servers.firstSelect = true →
      closed = false ∧ d.servers.currentServer ∈ d.servers.servers)
    (he : Effect hostPort options closed d e d') : d'.Timed := by
  cases he with
  | rest => exact h
  | moved => exact h.of_same rfl (fun _ hs => hs) (fun _ => rfl)
  | outage => exact h.of_same rfl (fun _ hs => hs) (fun _ => rfl)
  | update urls =>
      have hupdates := Servers.updates_update hsound.made hostPort urls
      refine ⟨h.started, fun s hs => ?_⟩
      show ((d.servers.update hostPort urls).1.impl s).lastConnect ≤ d.clock
      rcases hupdates.mem s hs with hold | ⟨-, -, -, -, hzero⟩
      · rw [hupdates.impl s (hsound.made s hold)]
        exact h.last s hold
      · -- a server that an INFO reports was never dialed
        rw [hzero]
        exact h.started
  | error text =>
      rw [processError_eq]
      exact h.of_same rfl (fun _ hs => hs) (fun _ => rfl)
  | pass wait now later hloop =>
      have hpass := d.pass_cases closed wait now later
      generalize d.pass closed wait now later = d₁ at hpass
      cases hpass with
      | exhausted =>
          exact h.of_same rfl (fun s hs => (d.pool_sublist closed).subset hs)
            (fun s => congrArg (fun f => (f s).lastConnect) (d.pool_impl closed))
      | aborted servers srv hselected =>
          refine h.of_same rfl (fun s hs => ?_) (fun s => ?_)
          · exact mem_of_selected hselected hs
          · exact congrArg (fun f => (f s).lastConnect) (impl_of_selected hselected)
      | tries servers srv hselected =>
          obtain ⟨-, -, hmem⟩ := hsound.of_selected hfirst hselected
          have hnext : Timed { d with servers, server := some srv } := by
            refine h.of_same rfl (fun s hs => ?_) (fun s => ?_)
            · exact mem_of_selected hselected hs
            · exact congrArg (fun f => (f s).lastConnect) (impl_of_selected hselected)
          -- the dial is stamped with the clock
          exact hnext.tryServer srv hclocked.1 hclocked.2 hmem
  | failed e srv err hloop =>
      exact h.of_same rfl (fun s hs => (d.catchFailure_sublist options srv err).1.subset hs)
        (fun s => catchFailure_field ServerImpl.lastConnect (fun _ => rfl) options d srv err s)
  | connected srv =>
      exact h.of_same rfl (fun s hs => d.dialed_servers srv ▸ hs)
        (fun s => dialed_field ServerImpl.lastConnect (fun _ => rfl) d srv s)
  | reconnected srv =>
      rw [cleanUp_eq]
      exact h.of_same rfl (fun s hs => d.dialed_servers srv ▸ hs)
        (fun s => dialed_field ServerImpl.lastConnect (fun _ => rfl) d srv s)

/-! ## What a step of an outage spends -/

/-- A step of an outage: the loop stands, dials, waits, or ends. -/
inductive Spends (n W : Nat) (d : Dialer) (e : Event) (d' : Dialer) : Prop where
  | stands (hpass : e.passes = 0) (hloop : d'.loop ≠ .idle) (hclock : d'.clock = d.clock)
      (hleft : d'.attemptsLeft n = d.attemptsLeft n)
      (htried : d'.journal.countP Entry.isTried = d.journal.countP Entry.isTried)
      (hlast : ∀ s ∈ d'.servers.servers, s ∈ d.servers.servers ∧
        (d'.servers.impl s).lastConnect = (d.servers.impl s).lastConnect)
  | dials (hpass : e.passes = 1) (hloop : d'.loop ≠ .idle)
      (hleft : d'.attemptsLeft n + 1 = d.attemptsLeft n)
      (htried : d'.journal.countP Entry.isTried = d.journal.countP Entry.isTried + 1)
      (hlast : ∀ s ∈ d'.servers.servers, (d'.servers.impl s).lastConnect ≤ d'.clock)
  | waits (hpass : e.passes = 1) (hloop : d'.loop ≠ .idle)
      (hleft : d'.attemptsLeft n = d.attemptsLeft n)
      (htried : d'.journal.countP Entry.isTried = d.journal.countP Entry.isTried)
      (hlast : ∀ s ∈ d'.servers.servers, s ∈ d.servers.servers ∧
        (d'.servers.impl s).lastConnect = (d.servers.impl s).lastConnect)
      (hclock : d.clock < d'.clock)
      (hwait : ∃ s ∈ d.servers.servers, d.clock < (d.servers.impl s).lastConnect + W)
  | ends (hpass : e.passes = 1) (hloop : d'.loop = .idle)
      (hleft : d'.attemptsLeft n = d.attemptsLeft n)
      (htried : d'.journal.countP Entry.isTried = d.journal.countP Entry.isTried)

theorem Event.passes_of_ne (h : ∀ wait now later, e ≠ .pass wait now later) : e.passes = 0 := by
  cases e with
  | pass wait now later => exact absurd rfl (h wait now later)
  | _ => rfl

/-- What a pass with a server spends. -/
theorem Spends.tryServer (hcounted : d.Counted) (hlimited : d.Limited n) (htimed : d.Timed)
    (hnodup : d.servers.servers.Nodup) (honce : d.connectedOnce = true)
    (hloop : d.loop.server = none) {srv : Nat} (hmem : srv ∈ d.servers.servers)
    {wait now later : Int} (hnow : d.clock ≤ now) (hlater : now ≤ later) (hwait : wait ≤ W) :
    Spends n W d (.pass wait now later) (d.tryServer srv wait now later) := by
  have hlast := htimed.last srv hmem
  have hcount := hcounted.counts honce srv hmem
  have hbelow := hlimited.below honce srv hmem
  rw [trying, hloop, if_neg (Option.some_ne_none srv).symm, Nat.add_zero] at hcount
  have hany : d.journal.any Entry.isConnected = true := hcounted.once.symm.trans honce
  have hnext : (d.tryServer srv wait now later).Timed := htimed.tryServer srv hnow hlater hmem
  rw [Dialer.tryServer] at hnext ⊢
  split
  case isTrue hnow' =>
    rw [if_pos hnow'] at hnext
    refine .dials rfl (by simp) ?_ ?_ hnext.last
    · refine attemptsLeft_tried rfl hnodup hmem ?_ (hcount ▸ hbelow) fun s hs => ?_
      · simp [tries, hany]
      · simp [tries, Ne.symm hs]
    · exact List.countP_cons_of_pos rfl
  case isFalse hlate =>
    obtain ⟨-, hlate⟩ := not_or.1 hlate
    refine .waits rfl (fun hno => by cases hno) rfl rfl (fun s hs => ⟨hs, rfl⟩) ?_ ⟨srv, hmem, ?_⟩
    · dsimp only
      omega
    · omega

theorem Spends.effect (hmra : options.maxReconnectAttempts = some (n : Int))
    (hcounted : d.Counted) (hlimited : d.Limited n) (htimed : d.Timed) (hsound : d.Sound)
    (hfirst : d.servers.firstSelect = false) (honce : d.connectedOnce = true)
    (hloop : d.loop ≠ .idle) (hclocked : e.Clocked d) (hdelay : e.DelayAtMost W)
    (hkeeps : e.KeepsPool hostPort options d)
    (hno : ∀ srv, d'.journal ≠ .connected srv :: d.journal)
    (he : Effect hostPort options false d e d') : Spends n W d e d' := by
  cases he with
  | rest e hpass =>
      exact .stands (Event.passes_of_ne hpass) hloop rfl rfl rfl fun s hs => ⟨hs, rfl⟩
  | moved e loop hserver hfrom hto hpass =>
      exact .stands (Event.passes_of_ne hpass) hto rfl rfl rfl fun s hs => ⟨hs, rfl⟩
  -- a loop is going on already
  | outage hidle => exact absurd hidle hloop
  | update urls blown hupdates =>
      have hchange := Servers.updates_update hsound.made hostPort urls
      -- the condition: no INFO changes the pool
      have hpool : (d.servers.update hostPort urls).1.servers = d.servers.servers :=
        hkeeps.resolve_left (by rw [hupdates]; exact Bool.false_ne_true)
      refine .stands rfl hloop rfl ?_ rfl fun s hs => ?_
      · exact attemptsLeft_congr (hpool ▸ .refl _) fun s _ => rfl
      · have hmem : s ∈ d.servers.servers := hpool ▸ hs
        exact ⟨hmem, congrArg _ (hchange.impl s (hsound.made s hmem))⟩
  | error text =>
      rw [processError_eq]
      refine .stands rfl hloop rfl ?_ ?_ fun s hs => ⟨hs, rfl⟩
      · exact attemptsLeft_congr (.refl _) fun s _ => tries_error s _ _ _
      · dsimp only
        split <;> rfl
  | pass wait now later hpassing =>
      have hserver : d.loop.server = none := hpassing ▸ rfl
      have hpass := d.pass_cases false wait now later
      generalize d.pass false wait now later = d₁ at hpass
      cases hpass with
      | exhausted => exact .ends rfl rfl (attemptsLeft_congr (.refl _) fun s _ => rfl) rfl
      | aborted servers srv hselected =>
          exact .ends rfl rfl (attemptsLeft_congr hselected.perm fun s _ => rfl) rfl
      | tries servers srv hselected =>
          -- the pool is turned, and its front is tried
          have hsame : Servers.Selected d.servers servers srv := hselected
          have hmem : srv ∈ d.servers.servers := by
            rcases hsame.mem with ⟨hf, -⟩ | ⟨-, hmem⟩
            · rw [hfirst] at hf
              cases hf
            · exact hmem
          have hin : ∀ s, s ∈ servers.servers ↔ s ∈ d.servers.servers := fun s => hsame.perm.mem_iff
          have hleft : attemptsLeft n { d with servers, server := some srv } = d.attemptsLeft n :=
            attemptsLeft_congr hsame.perm fun s _ => rfl
          have hspends : Spends n W { d with servers, server := some srv } (.pass wait now later)
              ({ d with servers, server := some srv }.tryServer srv wait now later) := by
            refine Spends.tryServer (d := { d with servers, server := some srv }) ?_ ?_ ?_ ?_
                honce hserver ((hin srv).2 hmem) hclocked.1 hclocked.2 hdelay
            · exact hcounted.of_same hserver hserver rfl (fun s => (hin s).1) hsame.made
                (fun s => congrArg (fun f => (f s).reconnects) hsame.impl) rfl (fun _ => rfl)
            · exact hlimited.of_same rfl (fun s => (hin s).1)
                (fun s => congrArg (fun f => (f s).reconnects) hsame.impl) (fun _ => rfl)
            · exact htimed.of_same rfl (fun s => (hin s).1)
                (fun s => congrArg (fun f => (f s).lastConnect) hsame.impl)
            · exact hsame.perm.nodup_iff.2 hsound.nodup
          have himpl : ∀ s, (servers.impl s).lastConnect = (d.servers.impl s).lastConnect :=
            fun s => congrArg (fun f => (f s).lastConnect) hsame.impl
          cases hspends with
          | stands hpass => cases hpass
          | dials hpass hloop hless htried hlast =>
              exact .dials hpass hloop (hleft ▸ hless) htried hlast
          | waits hpass hloop hless htried hlast hclock hwait =>
              refine .waits hpass hloop (hless.trans hleft) htried (fun s hs => ?_) hclock ?_
              · exact ⟨(hin s).1 (hlast s hs).1, (hlast s hs).2.trans (himpl s)⟩
              · obtain ⟨s, hs, hlt⟩ := hwait
                -- the one that the pass waits for is in the pool
                exact ⟨s, (hin s).1 hs, himpl s ▸ hlt⟩
          | ends hpass hloop hless htried => exact .ends hpass hloop (hless.trans hleft) htried
  | failed e srv err hserver herr hpass =>
      refine .stands (Event.passes_of_ne hpass) nofun rfl ?_ rfl fun s hs => ?_
      · exact attemptsLeft_failed hmra hlimited hcounted hsound honce hserver err
      · exact ⟨(d.catchFailure_sublist options srv err).1.subset hs,
          catchFailure_field ServerImpl.lastConnect (fun _ => rfl) options d srv err s⟩
  | connected srv => exact absurd rfl (hno srv)
  | reconnected srv =>
      rw [cleanUp_eq] at hno
      exact absurd rfl (hno srv)

/-- The passes that a loop has left: each dial gives the clock room for `W` more. -/
def Budget (n W : Nat) (d : Dialer) (b : Nat) : Prop :=
  d.loop ≠ .idle → ∃ last : Int,
    (∀ s ∈ d.servers.servers, (d.servers.impl s).lastConnect ≤ last) ∧
      d.attemptsLeft n * (W + 1) + (last + W - d.clock).toNat + 1 ≤ b

/-- The budget in front of a loop. -/
theorem Timed.budget (h : d.Timed) (n W : Nat) :
    Budget n W d (d.attemptsLeft n * (W + 1) + W + 1) := by
  refine fun _ => ⟨d.clock, h.last, ?_⟩
  have hroom : (d.clock + W - d.clock).toNat = W := by omega
  rw [hroom]

/-- **Each pass spends.** -/
theorem Budget.spends (h : Budget n W d b) (hloop : d.loop ≠ .idle) (hs : Spends n W d e d') :
    ∃ b', Budget n W d' b' ∧ b' + e.passes ≤ b := by
  obtain ⟨last, hlast, hle⟩ := h hloop
  cases hs with
  | stands hpass hloop' hclock hleft htried hsame =>
      refine ⟨b, fun _ => ⟨last, fun s hs => ?_, ?_⟩, by omega⟩
      · rw [(hsame s hs).2]
        exact hlast s (hsame s hs).1
      · rw [hleft, hclock]
        exact hle
  | dials hpass hloop' hleft htried hsame =>
      refine ⟨b - 1, fun _ => ⟨d'.clock, hsame, ?_⟩, by omega⟩
      have hroom : (d'.clock + W - d'.clock).toNat = W := by omega
      have hsplit : d.attemptsLeft n * (W + 1) = d'.attemptsLeft n * (W + 1) + (W + 1) := by
        rw [← hleft, Nat.succ_mul]
      rw [hroom]
      omega
  | waits hpass hloop' hleft htried hsame hclock hwait =>
      obtain ⟨s, hs, hlt⟩ := hwait
      have hbound := hlast s hs
      refine ⟨b - 1, fun _ => ⟨last, fun s hs => ?_, ?_⟩, by omega⟩
      · rw [(hsame s hs).2]
        exact hlast s (hsame s hs).1
      · rw [hleft]
        omega
  | ends hpass hloop' => exact ⟨b - 1, fun hne => absurd hloop' hne, by omega⟩

/-- **Each dial takes one of the tries that are left.** -/
theorem Spends.tried (hs : Spends n W d e d') :
    d'.journal.countP Entry.isTried + d'.attemptsLeft n =
      d.journal.countP Entry.isTried + d.attemptsLeft n := by
  cases hs with
  | stands hpass hloop hclock hleft htried => rw [hleft, htried]
  | dials hpass hloop hleft htried => omega
  | waits hpass hloop hleft htried => rw [hleft, htried]
  | ends hpass hloop hleft htried => rw [hleft, htried]

/-! ## The error that the loop throws -/

/-- The error of the loop is that of its last dial, and there is one when the server that failed
left the pool. -/
structure Blamed (d : Dialer) : Prop where
  error : d.loopError = none ∨ lastFailure d.journal = some d.loopError
  current : d.servers.currentServer ∈ d.servers.servers ∨ d.loopError ≠ none

/-- A loop that starts with its current server in the pool. -/
theorem Blamed.start (hcurrent : d.servers.currentServer ∈ d.servers.servers) :
    Blamed { d with loop := .pass, loopError := none } := ⟨.inl rfl, .inl hcurrent⟩

/-- **The blame of a running loop**, and what it throws. -/
theorem Blamed.effect (h : d.Blamed) (hsound : d.Sound) (hloop : d.loop ≠ .idle)
    (hfirst : d.servers.firstSelect = false) (habort : d.abortReconnect = false)
    (hno : ∀ srv, d'.journal ≠ .connected srv :: d.journal)
    (herr : ∀ srv, d'.journal ≠ .failed srv none :: d.journal)
    (he : Effect hostPort options false d e d') :
    (d'.loop = .idle →
        ∃ err, d'.journal = .gaveUp err :: d.journal ∧ lastFailure d.journal = some (some err)) ∧
      (d'.loop ≠ .idle → d'.Blamed) := by
  cases he with
  | rest => exact ⟨fun hidle => absurd hidle hloop, fun _ => h⟩
  | moved e loop hserver hfrom hto =>
      exact ⟨fun hidle => absurd hidle hto, fun _ => ⟨h.error, h.current⟩⟩
  | outage hidle => exact absurd hidle hloop
  | update urls =>
      have hchange := Servers.updates_update hsound.made hostPort urls
      refine ⟨fun hidle => absurd hidle hloop, fun _ => ⟨h.error, ?_⟩⟩
      refine h.current.imp_left fun hmem => ?_
      exact hchange.currentServer.symm ▸ hchange.kept _ hmem (.inr rfl)
  | error text =>
      rw [processError_eq]
      refine ⟨fun hidle => absurd hidle hloop, fun _ => ⟨?_, h.current⟩⟩
      refine h.error.imp_right fun hlast => ?_
      dsimp only
      split
      · exact hlast
      · exact hlast
  | pass wait now later hpassing =>
      have hpass := d.pass_cases false wait now later
      generalize d.pass false wait now later = d₁ at hpass
      cases hpass with
      | exhausted _ hempty =>
          -- the server that failed last left the pool
          have hpool : d.servers.servers = [] := hempty
          have hsome : d.loopError ≠ none := by
            rcases h.current with hmem | hsome
            · rw [hpool] at hmem
              cases hmem
            · exact hsome
          obtain ⟨err, herror⟩ := Option.ne_none_iff_exists'.1 hsome
          refine ⟨fun _ => ⟨err, ?_, ?_⟩, fun hne => absurd rfl hne⟩
          · simp [giveUp, thrown, herror]
          · rw [h.error.resolve_left hsome, herror]
      | aborted servers srv hselected haborted =>
          rw [habort] at haborted
          cases haborted
      | tries servers srv hselected =>
          have hsame : Servers.Selected d.servers servers srv := hselected
          have hmem : servers.currentServer ∈ servers.servers := by
            apply hsame.perm.mem_iff.2
            rcases hsame.mem with ⟨hf, -⟩ | ⟨-, hmem⟩
            · rw [hfirst] at hf
              cases hf
            · rw [hsame.currentServer]
              exact hmem
          rw [tryServer]
          split
          · exact ⟨by simp, fun _ => ⟨h.error, .inl hmem⟩⟩
          · exact ⟨by simp, fun _ => ⟨h.error, .inl hmem⟩⟩
  | failed e srv err hserver =>
      refine ⟨fun hidle => (by cases hidle), fun _ => ⟨.inr rfl, .inr ?_⟩⟩
      rintro (rfl : err = none)
      exact herr srv rfl
  | connected srv => exact absurd rfl (hno srv)
  | reconnected srv =>
      rw [cleanUp_eq] at hno
      exact absurd rfl (hno srv)

end Dialer

end NatsClient.Reconnect
