import NatsClient.Reconnect.Outage
import NatsClient.Reconnect.Outcome

/-!
# Bounded reconnection

The outages of a client, over its runs: from a lost connection on, while every dial fails, the loop
makes a bounded number of dials and of passes, and its end is the error of the last dial.

* `outage_run`: what a run of an outage does;
* `bounded_reconnection`: what `maxReconnectAttempts` promises.
-/

set_option autoImplicit false

namespace NatsClient.Reconnect

open NatsClient.Foundation

namespace Client

variable {hostPort : String → String} {options : ConnectionOptions} {listens : List String}
  {c c' c₁ c₂ : Client} {e : Event} {es : List Event} {n W b : Nat}

theorem limited_new (hostPort : String → String) (listens : List String) (n : Nat) :
    (new hostPort listens).toDialer.Limited n := ⟨nofun, fun _ => Nat.zero_le n⟩

theorem limited_run (hmra : options.maxReconnectAttempts = some (n : Int)) (hn : 1 ≤ n)
    (hrun : run (step hostPort options) (new hostPort listens) es = some c) :
    c.toDialer.Limited n := by
  have hboth : c.Tracked ∧ c.toDialer.Limited n := by
    refine invariant_run (I := fun c => c.Tracked ∧ c.toDialer.Limited n) ?_ hrun
      ⟨tracked_new hostPort listens, limited_new hostPort listens n⟩
    rintro c e c' ⟨htracked, hlimited⟩ hstep
    exact ⟨tracked_step htracked hstep, hlimited.effect hmra hn htracked.counted
      htracked.sound.dialer htracked.sound.first (effect_of_step hstep)⟩
  exact hboth.2

/-- The readings of the clock go on. -/
def Clocked (c : Client) (e : Event) : Prop := e.Clocked c.toDialer

instance (c : Client) (e : Event) : Decidable (c.Clocked e) :=
  inferInstanceAs (Decidable (e.Clocked c.toDialer))

theorem timed_run (hrun : run (step hostPort options) (new hostPort listens) es = some c)
    (hclocked : Meets (step hostPort options) Clocked (new hostPort listens) es) :
    c.toDialer.Timed := by
  have hboth : c.Tracked ∧ c.toDialer.Timed := by
    refine invariant_run_of_meets (I := fun c => c.Tracked ∧ c.toDialer.Timed) ?_ hrun hclocked
      ⟨tracked_new hostPort listens, ⟨Int.le_refl 0, fun _ _ => Int.le_refl 0⟩⟩
    rintro c e c' ⟨htracked, htimed⟩ hok hstep
    exact ⟨tracked_step htracked hstep, htimed.effect htracked.sound.dialer hok
      htracked.sound.first (effect_of_step hstep)⟩
  exact hboth.2

/-! ## An outage in which every dial fails -/

/-- The loop runs in a client that neither is closed nor gives up on authentication, the host of
each server has an address, no dial connects, the clock goes on, the delays are at most `W`, and the
cluster stays. -/
def Failing (hostPort : String → String) (options : ConnectionOptions) (W : Nat) (c : Client)
    (e : Event) : Prop :=
  c.loop ≠ .idle ∧ c.closed = false ∧ c.abortReconnect = false ∧ e ≠ .resolved 0 ∧
    (e = .settle → c.pong ≠ .resolved) ∧ c.Clocked e ∧ e.DelayAtMost W ∧
    e.KeepsPool hostPort options c.toDialer

instance (hostPort : String → String) (options : ConnectionOptions) (W : Nat) (c : Client)
    (e : Event) : Decidable (Failing hostPort options W c e) :=
  inferInstanceAs (Decidable (_ ∧ _))

/-- What a run of the loop keeps. -/
structure InOutage (n : Nat) (c : Client) : Prop where
  tracked : c.Tracked
  limited : c.toDialer.Limited n
  timed : c.toDialer.Timed
  once : c.connectedOnce = true
  blamed : c.loop ≠ .idle → c.toDialer.Blamed

/-- **A step of an outage** keeps all of it, spends, and ends the loop with the last error. -/
theorem InOutage.step (h : c.InOutage n)
    (hmra : options.maxReconnectAttempts = some (n : Int)) (hn : 1 ≤ n)
    (hok : Failing hostPort options W c e) (hstep : c.step hostPort options e = some c') :
    c'.InOutage n ∧ Dialer.Spends n W c.toDialer e c'.toDialer ∧
      (c'.loop = .idle →
        ∃ err, c'.journal = .gaveUp err :: c.journal ∧
        lastFailure c.journal = some (some err)) := by
  obtain ⟨hloop, hclosed, habort, haddress, hpong, hclocked, hdelay, hkeeps⟩ := hok
  have htracked := tracked_step h.tracked hstep
  have hfirst := h.tracked.sound.firstSelect_of_once h.once
  have he := effect_of_step hstep
  rw [hclosed] at he
  have hno : ∀ srv, c'.journal ≠ .connected srv :: c.journal := by
    intro srv hj
    obtain ⟨rfl, hresolved⟩ := connected_journal_step hstep hj
    exact hpong rfl hresolved
  have herr : ∀ srv, c'.journal ≠ .failed srv none :: c.journal := by
    intro srv hj
    rcases failed_none_step hstep hj with rfl | hrejected
    · exact haddress rfl
    · rw [h.tracked.rejected hrejected] at hclosed
      cases hclosed
  obtain ⟨hend, hblamed⟩ := (h.blamed hloop).effect h.tracked.sound.dialer hloop hfirst habort hno
    herr he
  refine ⟨⟨htracked, ?_, ?_, Dialer.connectedOnce_effect he h.once, hblamed⟩, ?_, hend⟩
  · exact h.limited.effect hmra hn h.tracked.counted h.tracked.sound.dialer
      (fun hf => absurd (hfirst.symm.trans hf) nofun) he
  · exact h.timed.effect h.tracked.sound.dialer hclocked
      (fun hf => absurd (hfirst.symm.trans hf) nofun) he
  · exact Dialer.Spends.effect hmra h.tracked.counted h.limited h.timed h.tracked.sound.dialer
      hfirst h.once hloop hclocked hdelay hkeeps hno he

/-- **A run of an outage**: its passes are within the budget, its dials within the tries that were
left, and its end is the last error. -/
theorem InOutage.run (h : c.InOutage n)
    (hmra : options.maxReconnectAttempts = some (n : Int)) (hn : 1 ≤ n)
    (hbudget : c.toDialer.Budget n W b)
    (hrun : Foundation.run (Client.step hostPort options) c es = some c')
    (hok : Meets (Client.step hostPort options) (Failing hostPort options W) c es) :
    (es.map Event.passes).sum ≤ b ∧
      c'.journal.countP Entry.isTried + c'.attemptsLeft n =
        c.journal.countP Entry.isTried + c.attemptsLeft n ∧
      (c.loop ≠ .idle → c'.loop = .idle → ∃ err j, c'.journal = .gaveUp err :: j ∧
        lastFailure j = some (some err)) := by
  induction es generalizing c b with
  | nil =>
      cases hrun
      exact ⟨Nat.zero_le b, rfl, fun hloop hidle => absurd hidle hloop⟩
  | cons e es ih =>
      obtain ⟨next, hstep, hrest⟩ := run_cons_inv hrun
      obtain ⟨hhere, hlater⟩ := hok
      rw [hstep] at hlater
      obtain ⟨hnext, hspends, hend⟩ := h.step hmra hn hhere hstep
      obtain ⟨b', hbudget', hle⟩ := hbudget.spends hhere.1 hspends
      obtain ⟨hpasses, htried, hthrown⟩ := ih hnext hbudget' hrest hlater
      refine ⟨?_, htried.trans hspends.tried, fun _ hidle => ?_⟩
      · rw [List.map_cons, List.sum_cons]
        omega
      · by_cases hnow : next.loop = .idle
        · -- the loop has ended, so nothing followed
          cases es with
          | nil =>
              cases hrest
              obtain ⟨err, hj, hlast⟩ := hend hidle
              exact ⟨err, _, hj, hlast⟩
          | cons => exact absurd hnow hlater.1.1
        · exact hthrown hnow hidle

/-- The loop never stands still for good: it has a next event of its own. -/
theorem exists_step (c : Client) (hloop : c.loop ≠ .idle) :
    ∃ e c', e.ofLoop = true ∧ c.step hostPort options e = some c' := by
  cases hwhere : c.loop with
  | idle => exact absurd hwhere hloop
  | pass => exact ⟨.pass 0 0 0, _, rfl, if_pos hwhere⟩
  | waiting => exact ⟨.wake, _, rfl, if_pos hwhere⟩
  | resolving srv => exact ⟨.resolved 1, c.resolved options srv 1, rfl, by simp only [step, hwhere]⟩
  | dialing srv alts =>
      cases hpong : c.pong with
      | pending =>
          exact ⟨.fail (.nats connectionRefused), _, rfl, by simp only [step, hwhere]; rfl⟩
      | resolved => exact ⟨.settle, c.dialDone srv, rfl, by simp only [step, hwhere, hpong]⟩
      | rejected err =>
          exact ⟨.settle, c.dialFailed options srv alts err, rfl,
            by simp only [step, hwhere, hpong]⟩

/-! ## Without a limit -/

/-- The client is not closed, and the cluster stays. -/
def Undisturbed (hostPort : String → String) (options : ConnectionOptions) (c : Client)
    (e : Event) :
    Prop := c.closed = false ∧ e.KeepsPool hostPort options c.toDialer

instance (hostPort : String → String) (options : ConnectionOptions) (c : Client) (e : Event) :
    Decidable (Undisturbed hostPort options c e) :=
  inferInstanceAs (Decidable (_ ∧ _))

/-- Without a limit a step only turns the pool. -/
theorem perm_step (hmra : options.maxReconnectAttempts = some (-1)) (h : c.Tracked)
    (honce : c.connectedOnce = true) (hok : Undisturbed hostPort options c e)
    (hstep : c.step hostPort options e = some c') :
    c'.servers.servers.Perm c.servers.servers := by
  obtain ⟨hclosed, hkeeps⟩ := hok
  have he := effect_of_step hstep
  rw [hclosed] at he
  generalize c'.toDialer = d' at he ⊢
  cases he with
  | rest => exact .refl _
  | moved => exact .refl _
  | outage => exact .refl _
  | update urls blown hupdates =>
      have hpool : (c.servers.update hostPort urls).1.servers = c.servers.servers :=
        hkeeps.resolve_left (by rw [hupdates]; exact Bool.false_ne_true)
      exact hpool ▸ .refl _
  | error text =>
      rw [Dialer.processError_eq]
  | pass wait now later =>
      have hpass := c.toDialer.pass_cases false wait now later
      generalize c.toDialer.pass false wait now later = d₁ at hpass
      cases hpass with
      | exhausted => exact .refl _
      | aborted servers srv hselected => exact hselected.perm
      | tries servers srv hselected =>
          have hperm : servers.servers.Perm c.servers.servers := hselected.perm
          rw [Dialer.tryServer]
          split
          · exact hperm
          · exact hperm
  | failed e srv err hserver =>
      rw [Dialer.failed_servers_of_no_limit hmra h.sound.dialer honce hserver err]
  | connected srv => exact c.toDialer.dialed_servers srv ▸ .refl _
  | reconnected srv =>
      rw [Dialer.cleanUp_eq]
      exact c.toDialer.dialed_servers srv ▸ .refl _

theorem perm_run (hmra : options.maxReconnectAttempts = some (-1)) (h : c.Tracked)
    (honce : c.connectedOnce = true) (hrun : run (step hostPort options) c es = some c')
    (hok : Meets (step hostPort options) (Undisturbed hostPort options) c es) :
    c'.servers.servers.Perm c.servers.servers := by
  have hall : c'.Tracked ∧ c'.connectedOnce = true ∧
      c'.servers.servers.Perm c.servers.servers := by
    refine invariant_run_of_meets (I := fun k => k.Tracked ∧ k.connectedOnce = true ∧
      k.servers.servers.Perm c.servers.servers) ?_ hrun hok ⟨h, honce, .refl _⟩
    rintro k e k' ⟨htracked, hk, hperm⟩ hhere hstep
    exact ⟨tracked_step htracked hstep, Dialer.connectedOnce_effect (effect_of_step hstep) hk,
      (perm_step hmra htracked hk hhere hstep).trans hperm⟩
  exact hall.2.2

/-! ## What `maxReconnectAttempts` promises -/

/-- **Bounded reconnection.** After any run of a client to a state in which it had connected once,
with a limit `n`: each server was tried at most `n` times without a connection in between; the `n`th
failure of a server removes it and no other, and no other failure removes a server; a connection
resets the counter; and an outage in which every dial fails makes at most the dials and the passes
that are left, never stands still, and ends with the error of its last dial. With `-1` the servers
of the pool stay. -/
theorem bounded_reconnection (hostPort : String → String) (options : ConnectionOptions)
    (listens : List String) (es₀ : List Event) (c : Client)
    (hrun : run (step hostPort options) (new hostPort listens) es₀ = some c)
    (honce : c.connectedOnce = true) :
    (∀ n : Nat, options.maxReconnectAttempts = some (n : Int) → 1 ≤ n →
      (∀ srv, tries srv c.journal ≤ n) ∧
      (∀ e c' srv err, c.step hostPort options e = some c' →
        c'.journal = .failed srv err :: c.journal →
          c.servers.servers.Nodup ∧ srv ∈ c.servers.servers ∧
            c'.servers.servers = if tries srv c.journal = n then c.servers.servers.erase srv
              else c.servers.servers) ∧
      (∀ e c' srv, c.step hostPort options e = some c' →
        c'.journal = .connected srv :: c.journal → (c'.servers.impl srv).reconnects = 0) ∧
      (options.reconnect = true → c.connected = true → c.closed = false →
        Meets (step hostPort options) Clocked (new hostPort listens) es₀ →
        ∀ c₁ W es c₂, c.step hostPort options .notify = some c₁ →
          run (step hostPort options) c₁ es = some c₂ →
          Meets (step hostPort options) (Failing hostPort options W) c₁ es →
            c₂.journal.countP Entry.isTried ≤ c.journal.countP Entry.isTried + c.attemptsLeft n ∧
            (es.map Event.passes).sum ≤ c.attemptsLeft n * (W + 1) + W + 1 ∧
            (c₂.loop ≠ .idle → ∃ e c₃, e.ofLoop = true ∧ c₂.step hostPort options e = some c₃) ∧
            (c₂.loop = .idle → ∃ err j, c₂.journal = .gaveUp err :: j ∧
              lastFailure j = some (some err)))) ∧
    (options.maxReconnectAttempts = some (-1) →
      ∀ es c', run (step hostPort options) c es = some c' →
        Meets (step hostPort options) (Undisturbed hostPort options) c es →
          c'.servers.servers.Perm c.servers.servers) := by
  have htracked := tracked_run hrun
  refine ⟨fun n hmra hn => ?_, fun hmra es c' hes hok => perm_run hmra htracked honce hes hok⟩
  have hlimited := limited_run hmra hn hrun
  refine ⟨hlimited.bounded, ?_, ?_, ?_⟩
  · intro e c' srv err hstep hj
    obtain ⟨hserver, hd, -⟩ := Dialer.eq_catchFailure (effect_of_step hstep) hj
    have hpool := Dialer.failed_servers hmra hlimited htracked.counted htracked.sound.dialer honce
      hserver err
    refine ⟨htracked.sound.dialer.nodup, hpool.1, ?_⟩
    rw [hd]
    exact hpool.2
  · intro e c' srv hstep hj
    obtain ⟨hserver, -, hservers⟩ := Dialer.eq_dialed (effect_of_step hstep) hj
    obtain ⟨-, -, hthis⟩ := htracked.sound.dialer.tried srv hserver
    rw [hservers, Dialer.dialed_reconnects hthis, if_pos rfl]
  · intro hreconnect hconnected hclosed hclocked c₁ W es c₂ hnotify hes hok
    obtain ⟨hidle, -, hcurrent⟩ := htracked.connected hconnected
    have htimed := timed_run hrun hclocked
    -- the notification starts a loop
    have hstart : c₁.toDialer = { c.toDialer with loop := .pass, loopError := none } := by
      obtain ⟨-, ⟨⟩⟩ := Option.ite_none_left_eq_some.1 hnotify
      simp [closedNotification, disconnected, hclosed, hreconnect, hidle]
    have hloop : c₁.loop = .pass := congrArg Dialer.loop hstart
    have hin : c₁.InOutage n := by
      refine ⟨tracked_step htracked hnotify, ?_, ?_, ?_, fun _ => ?_⟩
      · exact hstart ▸ ⟨hlimited.below, hlimited.bounded⟩
      · exact hstart ▸ ⟨htimed.started, htimed.last⟩
      · exact (congrArg Dialer.connectedOnce hstart).trans honce
      · exact hstart ▸ Dialer.Blamed.start hcurrent
    have hleft : c₁.attemptsLeft n = c.attemptsLeft n := by
      rw [hstart]
      rfl
    have hjournal : c₁.journal = c.journal := by rw [hstart]
    obtain ⟨hpasses, htried, hthrown⟩ := hin.run hmra hn (hin.timed.budget n W) hes hok
    rw [hleft, hjournal] at htried
    rw [hleft] at hpasses
    refine ⟨by omega, hpasses, fun hne => exists_step c₂ hne, hthrown ?_⟩
    rw [hloop]
    simp

def limitTwo : ConnectionOptions := { defaultOptions with maxReconnectAttempts := some 2 }

/-- The first dial connects, and the connection is lost. -/
def connecting : List Event :=
  [.pass 2000 1000 1000, .resolved 1, .info [] none, .pong, .settle, .lost none]

/-- A dial that is refused. -/
def refusal (now : Int) : List Event :=
  [.pass 2000 now now, .resolved 1, .fail (.nats connectionRefused), .settle]

/-- Two servers refuse two dials each, with a wait between. -/
def refused : List Event :=
  refusal 5000 ++ refusal 5000 ++ [.pass 2000 5000 5000, .wake] ++ refusal 7000 ++ refusal 7000 ++
    [.pass 2000 7000 7000]

theorem bounded_reconnection_limitTwo :
    ∃ c c₁ c₂ : Client,
      run (step id limitTwo) (new id ["a", "b"]) connecting = some c ∧
      c.step id limitTwo .notify = some c₁ ∧ run (step id limitTwo) c₁ refused = some c₂ ∧
      c₂.loop = .idle ∧ c₂.journal.countP Entry.isTried ≤ c.journal.countP Entry.isTried + 4 ∧
      ∃ err j, c₂.journal = .gaveUp err :: j ∧ lastFailure j = some (some err) := by
  have hends : (run (step id limitTwo) (new id ["a", "b"]) connecting).any (fun c =>
      decide (c.connectedOnce = true ∧ c.connected = true ∧ c.closed = false ∧
        c.attemptsLeft 2 = 4) &&
      (c.step id limitTwo .notify).any fun c₁ =>
        decide (Meets (step id limitTwo) (Failing id limitTwo 2000) c₁ refused) &&
        (run (step id limitTwo) c₁ refused).any fun c₂ => decide (c₂.loop = .idle)) = true := by
    decide +kernel
  have hclocked : Meets (step id limitTwo) Clocked (new id ["a", "b"]) connecting := by
    decide +kernel
  obtain ⟨c, hrun, hc⟩ := (Option.any_eq_true _ _).1 hends
  obtain ⟨hstate, hnotified⟩ := Bool.and_eq_true_iff.1 hc
  obtain ⟨honce, hconnected, hclosed, hleft⟩ := of_decide_eq_true hstate
  obtain ⟨c₁, hnotify, hc₁⟩ := (Option.any_eq_true _ _).1 hnotified
  obtain ⟨hok, hended⟩ := Bool.and_eq_true_iff.1 hc₁
  obtain ⟨c₂, hes, hc₂⟩ := (Option.any_eq_true _ _).1 hended
  have hidle := of_decide_eq_true hc₂
  obtain ⟨hlimit, -⟩ := bounded_reconnection id limitTwo ["a", "b"] connecting c hrun honce
  obtain ⟨-, -, -, houtage⟩ := hlimit 2 rfl (by decide)
  obtain ⟨htried, -, -, hthrown⟩ := houtage rfl hconnected hclosed hclocked c₁ 2000 refused c₂
    hnotify hes (of_decide_eq_true hok)
  exact ⟨c, c₁, c₂, hrun, hnotify, hes, hidle, hleft ▸ htried, hthrown hidle⟩

end Client

end NatsClient.Reconnect
