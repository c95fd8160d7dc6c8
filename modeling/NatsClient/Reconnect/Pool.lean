import NatsClient.Reconnect.Dial

/-!
# The pool under the dial loop

What a pass of the `while` and a failed dial do to the pool of servers, and that the server that is
tried is the current one, and in the pool: so `removeCurrentServer` finds it.

* `pass_cases`: what a pass is;
* `afterFailure_of_connected`, `afterFailure_of_first`: what a failed dial does to the pool;
* `sound_reachable`: the pool is sound whatever happened;
* `eq_catchFailure`, `eq_dialed`: the steps that write a failure, or a connection, to the journal.
-/

set_option autoImplicit false

namespace NatsClient.Reconnect

open NatsClient.Foundation

namespace Dialer

variable {options : ConnectionOptions} {d d' : Dialer} {closed : Bool} {wait now later : Int}

/-- The pass of a dialer with a pool. -/
inductive Passes (d : Dialer) (closed : Bool) (wait now later : Int) : Dialer → Prop where
  | exhausted (hfirst : d.servers.firstSelect = false) (hempty : (d.pool closed).servers = []) :
      Passes d closed wait now later { d with servers := d.pool closed }.giveUp
  | aborted (servers : Servers) (srv : Nat) (hselected : (d.pool closed).Selected servers srv)
      (habort : d.abortReconnect = true) :
      Passes d closed wait now later { d with servers, server := some srv }.giveUp
  | tries (servers : Servers) (srv : Nat) (hselected : (d.pool closed).Selected servers srv)
      (habort : d.abortReconnect = false) :
      Passes d closed wait now later
        ({ d with servers, server := some srv }.tryServer srv wait now later)

@[simp] theorem pool_firstSelect (d : Dialer) (closed : Bool) :
    (d.pool closed).firstSelect = d.servers.firstSelect := by
  rw [pool]
  split <;> rfl

@[simp] theorem pool_impl (d : Dialer) (closed : Bool) : (d.pool closed).impl = d.servers.impl := by
  rw [pool]
  split <;> rfl

@[simp] theorem pool_made (d : Dialer) (closed : Bool) : (d.pool closed).made = d.servers.made := by
  rw [pool]
  split <;> rfl

theorem pool_sublist (d : Dialer) (closed : Bool) :
    List.Sublist (d.pool closed).servers d.servers.servers := by
  rw [pool]
  split
  · exact List.nil_sublist _
  · exact List.Sublist.refl _

section

variable {servers : Servers} {srv : Nat}

/-- A selection leaves no server in the pool that was not there. -/
theorem mem_of_selected (hselected : (d.pool closed).Selected servers srv) {s : Nat}
    (hs : s ∈ servers.servers) : s ∈ d.servers.servers :=
  (d.pool_sublist closed).subset (hselected.perm.subset hs)

theorem made_of_selected (hselected : (d.pool closed).Selected servers srv) :
    servers.made = d.servers.made :=
  hselected.made.trans (d.pool_made closed)

/-- A selection leaves the servers themselves alone. -/
theorem impl_of_selected (hselected : (d.pool closed).Selected servers srv) :
    servers.impl = d.servers.impl :=
  hselected.impl.trans (d.pool_impl closed)

end

/-- **What a pass is.** -/
theorem pass_cases (d : Dialer) (closed : Bool) (wait now later : Int) :
    Passes d closed wait now later (d.pass closed wait now later) := by
  cases hselect : (d.pool closed).selectServer with
  | mk r servers =>
      have hpass : d.pass closed wait now later =
          match r with
          | none => { d with servers, server := r.or d.server }.giveUp
          | some srv =>
              if d.abortReconnect then { d with servers, server := some srv }.giveUp
              else { d with servers, server := some srv }.tryServer srv wait now later := by
        simp only [pass, selectServer, hselect]
        cases r <;> rfl
      rw [hpass]
      rcases Servers.selectServer_cases hselect with ⟨rfl, rfl, hfirst, hempty⟩ | ⟨srv,
        rfl, hselected⟩
      · exact .exhausted (pool_firstSelect d closed ▸ hfirst) hempty
      · show Passes _ _ _ _ _ (ite _ _ _)
        split
        case isTrue habort => exact .aborted servers srv hselected habort
        case isFalse habort => exact .tries servers srv hselected (Bool.eq_false_iff.2 habort)

/-- **A failed dial of a client that had connected** counts, and removes the server at the limit. -/
theorem afterFailure_of_connected {s : Servers} {srv : Nat} (hcurrent : s.currentServer = srv)
    (hmem : srv ∈ s.servers) :
    afterFailure options true s srv =
      { s.modify srv ServerImpl.failedOnce with
        servers := if limitReached options ((s.impl srv).reconnects + 1) then s.servers.erase srv
          else s.servers } := by
  subst hcurrent
  have hcount : ((s.modify s.currentServer ServerImpl.failedOnce).impl
      s.currentServer).reconnects = (s.impl s.currentServer).reconnects + 1 := by
    rw [Servers.modify_impl, if_pos rfl]
    rfl
  show (if limitReached options ((s.modify s.currentServer _).impl s.currentServer).reconnects
      then _
    else _) = _
  rw [hcount]
  split
  · exact Servers.removeServer_of_mem hmem
  · rfl

/-- **A failed dial before the first connection** removes the server; at the limit a second removal
misses it, and removes the last server that is left. -/
theorem afterFailure_of_first {s : Servers} {srv : Nat} (hcurrent : s.currentServer = srv)
    (hmem : srv ∈ s.servers) (hnodup : s.servers.Nodup) :
    afterFailure options false s srv =
      { s.modify srv ServerImpl.failedOnce with
        servers := if limitReached options ((s.impl srv).reconnects + 1)
          then (s.servers.erase srv).dropLast else s.servers.erase srv } := by
  subst hcurrent
  have hremoved : s.removeCurrentServer = { s with servers := s.servers.erase s.currentServer } :=
    Servers.removeServer_of_mem hmem
  have hgone : s.currentServer ∉ s.servers.erase s.currentServer := hnodup.not_mem_erase
  rw [afterFailure, if_neg Bool.false_ne_true, hremoved]
  have hcount : ((Servers.modify { s with servers := s.servers.erase s.currentServer }
      s.currentServer ServerImpl.failedOnce).impl
      s.currentServer).reconnects = (s.impl s.currentServer).reconnects + 1 := by
    rw [Servers.modify_impl, if_pos rfl]
    rfl
  show (if limitReached options ((Servers.modify _ s.currentServer _).impl
    s.currentServer).reconnects then _ else _) = _
  rw [hcount]
  split
  · exact Servers.removeServer_of_not_mem hgone
  · rfl

/-- What `processError` changes. -/
theorem processError_eq (options : ConnectionOptions) (d : Dialer) (err : NatsError) :
    d.processError options err =
      { d with
        lastError := if err.code.isPermissionError then d.lastError else some err
        abortReconnect := d.abortReconnect || err.code.isAuthError && d.aborts options err
        journal := (if err.code.isAuthError && d.aborts options err then [.abort] else []) ++
          .error err.code :: d.journal } := by
  have hsame : { d with journal := .error err.code :: d.journal }.aborts options err =
      d.aborts options err := rfl
  simp only [processError, authError, hsame, record]
  cases err.code.isAuthError with
  | false => cases err.code.isPermissionError <;> simp
  | true => cases d.aborts options err <;> cases err.code.isPermissionError <;> simp

/-- What a failed dial leaves of the pool, whatever it is. -/
theorem afterFailure_sublist (options : ConnectionOptions) (connectedOnce : Bool) (s : Servers)
    (srv : Nat) :
    List.Sublist (afterFailure options connectedOnce s srv).servers s.servers ∧
      (afterFailure options connectedOnce s srv).made = s.made ∧
      (afterFailure options connectedOnce s srv).firstSelect = s.firstSelect := by
  have hremoved : ∀ t : Servers, List.Sublist t.removeCurrentServer.servers t.servers :=
    fun t => List.eraseIdx_sublist _ _
  cases connectedOnce with
  | true =>
      rw [afterFailure, if_pos rfl]
      split
      · exact ⟨hremoved _, rfl, rfl⟩
      · exact ⟨List.Sublist.refl _, rfl, rfl⟩
  | false =>
      rw [afterFailure, if_neg Bool.false_ne_true]
      split
      · exact ⟨(hremoved _).trans (hremoved s), rfl, rfl⟩
      · exact ⟨hremoved s, rfl, rfl⟩

theorem catchFailure_sublist (options : ConnectionOptions) (d : Dialer) (srv : Nat)
    (err : Option Reason) :
    List.Sublist (d.catchFailure options srv err).servers.servers d.servers.servers ∧
      (d.catchFailure options srv err).servers.made = d.servers.made ∧
      (d.catchFailure options srv err).servers.firstSelect = d.servers.firstSelect := by
  simp only [catchFailure]
  split
  · exact ⟨List.Sublist.refl _, rfl, rfl⟩
  · exact afterFailure_sublist options d.connectedOnce d.servers srv

theorem catchFailure_of_connected (honce : d.connectedOnce = true) (srv : Nat)
    (err : Option Reason) :
    (d.catchFailure options srv err).servers = afterFailure options true d.servers srv := by
  simp [catchFailure, honce]

theorem catchFailure_of_first (honce : d.connectedOnce = false)
    (hwait : options.waitOnFirstConnect = false) (srv : Nat) (err : Option Reason) :
    (d.catchFailure options srv err).servers = afterFailure options false d.servers srv := by
  simp [catchFailure, honce, hwait]

theorem catchFailure_of_wait (honce : d.connectedOnce = false)
    (hwait : options.waitOnFirstConnect = true) (srv : Nat) (err : Option Reason) :
    (d.catchFailure options srv err).servers = d.servers := by
  simp [catchFailure, honce, hwait]

@[simp] theorem dialed_servers (d : Dialer) (srv : Nat) :
    (d.dialed srv).servers.servers = d.servers.servers := by
  rw [dialed]
  cases d.server <;> rfl

@[simp] theorem dialed_made (d : Dialer) (srv : Nat) :
    (d.dialed srv).servers.made = d.servers.made := by
  rw [dialed]
  cases d.server <;> rfl

@[simp] theorem dialed_firstSelect (d : Dialer) (srv : Nat) :
    (d.dialed srv).servers.firstSelect = d.servers.firstSelect := by
  rw [dialed]
  cases d.server <;> rfl

/-- A failed dial changes no field but the counter. -/
theorem catchFailure_field {α : Type} (field : ServerImpl → α)
    (hfield : ∀ x, field (ServerImpl.failedOnce x) = field x) (options : ConnectionOptions)
    (d : Dialer) (srv : Nat) (err : Option Reason) (s : Nat) :
    field ((d.catchFailure options srv err).servers.impl s) = field (d.servers.impl s) := by
  have hafter : ∀ b : Bool, field ((afterFailure options b d.servers srv).impl s) =
      field (d.servers.impl s) := by
    intro b
    cases b with
    | true =>
        rw [afterFailure, if_pos rfl]
        split
        · exact Servers.modify_field field ServerImpl.failedOnce hfield d.servers srv s
        · exact Servers.modify_field field ServerImpl.failedOnce hfield d.servers srv s
    | false =>
        rw [afterFailure, if_neg Bool.false_ne_true]
        split
        · exact Servers.modify_field field ServerImpl.failedOnce hfield
            d.servers.removeCurrentServer srv s
        · exact Servers.modify_field field ServerImpl.failedOnce hfield
            d.servers.removeCurrentServer srv s
  simp only [catchFailure]
  split
  · rfl
  · exact hafter _

/-- What a connection leaves of the servers. -/
theorem dialed_field {α : Type} (field : ServerImpl → α)
    (hfield : ∀ x, field (ServerImpl.connected x) = field x) (d : Dialer) (srv s : Nat) :
    field ((d.dialed srv).servers.impl s) = field (d.servers.impl s) := by
  simp only [dialed]
  cases d.server with
  | none => rfl
  | some i => exact Servers.modify_field field ServerImpl.connected hfield d.servers i s

/-- `cleanUp` changes no more than the last error. -/
theorem cleanUp_eq (d : Dialer) : d.cleanUp =
    { d with
      lastError := if d.lastError.any fun e => e.code = .AuthenticationExpired then none
        else d.lastError } := by
  rw [cleanUp]
  split <;> rfl

/-! ## The server that is tried is in the pool -/

/-- The pool has no server twice, and the server that is tried is the current one and in it. -/
structure Sound (d : Dialer) : Prop where
  made : d.servers.Made
  nodup : d.servers.servers.Nodup
  tried : ∀ srv, d.loop.server = some srv →
    d.servers.currentServer = srv ∧ srv ∈ d.servers.servers ∧ d.server = some srv

/-- A pool with fewer servers, and no server tried. -/
theorem Sound.of_sublist (h : d.Sound)
    (hservers : List.Sublist d'.servers.servers d.servers.servers)
    (hmade : d'.servers.made = d.servers.made) (hloop : d'.loop.server = none) : d'.Sound := by
  refine ⟨fun i hi => ?_, h.nodup.sublist hservers, fun srv hsrv => ?_⟩
  · rw [hmade]
    exact h.made i (hservers.subset hi)
  · rw [hloop] at hsrv
    cases hsrv

/-- A server selected from the pool. -/
theorem Sound.of_selected (h : d.Sound)
    (hfirst : d.servers.firstSelect = true →
      closed = false ∧ d.servers.currentServer ∈ d.servers.servers)
    {servers : Servers} {srv : Nat} (hselected : (d.pool closed).Selected servers srv) :
    servers.Made ∧ servers.servers.Nodup ∧ srv ∈ servers.servers := by
  refine ⟨fun i hi => ?_, ?_, ?_⟩
  · rw [made_of_selected hselected]
    exact h.made i (mem_of_selected hselected hi)
  · exact hselected.perm.nodup_iff.2 (h.nodup.sublist (d.pool_sublist closed))
  · apply hselected.perm.mem_iff.2
    rcases hselected.mem with ⟨hf, rfl⟩ | ⟨-, hmem⟩
    · obtain ⟨rfl, hcurrent⟩ := hfirst (pool_firstSelect d closed ▸ hf)
      exact hcurrent
    · exact hmem

/-- **What keeps the pool sound.** -/
theorem Sound.effect {hostPort : String → String} {e : Event} (h : d.Sound)
    (hfirst : d.servers.firstSelect = true →
      closed = false ∧ d.servers.currentServer ∈ d.servers.servers)
    (he : Effect hostPort options closed d e d') : d'.Sound := by
  cases he with
  | rest => exact h
  | moved e loop hserver =>
      refine ⟨h.made, h.nodup, fun srv hsrv => h.tried srv ?_⟩
      exact hserver ▸ hsrv
  | outage => exact h.of_sublist (List.Sublist.refl _) rfl rfl
  | update urls =>
      have hupdates := Servers.updates_update h.made hostPort urls
      refine ⟨fun i hi => ?_, hupdates.nodup h.nodup, fun srv hsrv => ?_⟩
      · rcases hupdates.mem i hi with hold | hnew
        · exact (h.made i hold).trans_le hupdates.made
        · exact hnew.2.1
      · -- an update keeps the server that is dialed
        obtain ⟨hcurrent, hmem, hserver⟩ := h.tried srv hsrv
        exact ⟨hupdates.currentServer.trans hcurrent, hupdates.kept srv hmem (.inr hcurrent.symm),
          hserver⟩
  | error text =>
      rw [processError_eq]
      exact ⟨h.made, h.nodup, h.tried⟩
  | pass wait now later hloop =>
      have hpass := d.pass_cases closed wait now later
      generalize d.pass closed wait now later = d₁ at hpass
      cases hpass with
      | exhausted => exact h.of_sublist (d.pool_sublist closed) (d.pool_made closed) rfl
      | aborted servers srv hselected =>
          obtain ⟨hmade, hnodup, -⟩ := h.of_selected hfirst hselected
          exact ⟨hmade, hnodup, nofun⟩
      | tries servers srv hselected =>
          obtain ⟨hmade, hnodup, hmem⟩ := h.of_selected hfirst hselected
          rw [tryServer]
          split
          · -- the server that is selected is the current one
            refine ⟨hmade, hnodup, ?_⟩
            rintro _ ⟨⟩
            exact ⟨hselected.currentServer, hmem, rfl⟩
          · exact ⟨hmade, hnodup, nofun⟩
  | failed e srv err hloop =>
      obtain ⟨hservers, hmade, -⟩ := d.catchFailure_sublist options srv err
      exact h.of_sublist hservers hmade rfl
  | connected srv alts hloop =>
      exact h.of_sublist (d.dialed_servers srv ▸ .refl _) (d.dialed_made srv) rfl
  | reconnected srv alts hloop =>
      rw [cleanUp_eq]
      exact h.of_sublist (d.dialed_servers srv ▸ .refl _) (d.dialed_made srv) rfl

/-! ## What the journal tells of a step -/

/-- A pass writes no failure and no connection. -/
theorem journal_pass (d : Dialer) (closed : Bool) (wait now later : Int) :
    (d.pass closed wait now later).journal = d.journal ∨
      (∃ srv, (d.pass closed wait now later).journal = .tried srv :: d.journal) ∨
      ∃ err, (d.pass closed wait now later).journal = .gaveUp err :: d.journal := by
  have hpass := d.pass_cases closed wait now later
  generalize d.pass closed wait now later = d₁ at hpass
  cases hpass with
  | exhausted => exact .inr (.inr ⟨_, rfl⟩)
  | aborted => exact .inr (.inr ⟨_, rfl⟩)
  | tries servers srv =>
      rw [tryServer]
      split
      · exact .inr (.inl ⟨srv, rfl⟩)
      · exact .inl rfl

/-- The step that writes a failure. -/
theorem eq_catchFailure {hostPort : String → String} {e : Event} {srv : Nat}
    {err : Option Reason} (he : Effect hostPort options closed d e d')
    (hj : d'.journal = .failed srv err :: d.journal) :
    d.loop.server = some srv ∧ d' = d.catchFailure options srv err ∧
      (err = none → e = .resolved 0 ∨ e = .settle) := by
  have hself : d.journal ≠ .failed srv err :: d.journal := fun h => List.cons_ne_self _ _ h.symm
  cases he with
  | rest => exact absurd hj hself
  | moved => exact absurd hj hself
  | outage => exact absurd hj hself
  | update => exact absurd hj hself
  | error text =>
      rw [processError_eq] at hj
      dsimp only at hj
      split at hj
      · cases hj
      · cases hj
  | pass wait now later =>
      rcases d.journal_pass closed wait now later with h | ⟨s, h⟩ | ⟨r, h⟩
      · exact absurd (h.symm.trans hj) hself
      · cases h.symm.trans hj
      · cases h.symm.trans hj
  | failed e s r hloop herr =>
      cases hj
      exact ⟨hloop, rfl, herr⟩
  | connected => cases hj
  | reconnected =>
      rw [cleanUp_eq] at hj
      cases hj

/-- The step that writes a connection. -/
theorem eq_dialed {hostPort : String → String} {e : Event} {srv : Nat}
    (he : Effect hostPort options closed d e d') (hj : d'.journal = .connected srv :: d.journal) :
    d.loop.server = some srv ∧ e = .settle ∧ d'.servers = (d.dialed srv).servers := by
  have hself : d.journal ≠ .connected srv :: d.journal := fun h => List.cons_ne_self _ _ h.symm
  cases he with
  | rest => exact absurd hj hself
  | moved => exact absurd hj hself
  | outage => exact absurd hj hself
  | update => exact absurd hj hself
  | error text =>
      rw [processError_eq] at hj
      dsimp only at hj
      split at hj
      · cases hj
      · cases hj
  | pass wait now later =>
      rcases d.journal_pass closed wait now later with h | ⟨s, h⟩ | ⟨r, h⟩
      · exact absurd (h.symm.trans hj) hself
      · cases h.symm.trans hj
      · cases h.symm.trans hj
  | failed => cases hj
  | connected s alts hloop =>
      cases hj
      exact ⟨hloop ▸ rfl, rfl, rfl⟩
  | reconnected s alts hloop =>
      rw [cleanUp_eq] at hj ⊢
      cases hj
      exact ⟨hloop ▸ rfl, rfl, rfl⟩

/-- A client that connected once stays one. -/
theorem connectedOnce_effect {hostPort : String → String} {e : Event}
    (he : Effect hostPort options closed d e d') (h : d.connectedOnce = true) :
    d'.connectedOnce = true := by
  cases he with
  | error text => exact (processError_eq options d _).symm ▸ h
  | pass wait now later =>
      have hpass := d.pass_cases closed wait now later
      generalize d.pass closed wait now later = d₁ at hpass
      cases hpass with
      | exhausted => exact h
      | aborted => exact h
      | tries servers srv =>
          rw [tryServer]
          split
          · exact h
          · exact h
  | connected => rfl
  | reconnected srv =>
      rw [cleanUp_eq]
      rfl
  | _ => exact h

end Dialer

namespace Client

variable {hostPort : String → String} {options : ConnectionOptions} {c c' : Client} {e : Event}
  {listens : List String}

/-- The dialer is sound, and a client that has not selected a server is in `connect`. -/
structure Sound (c : Client) : Prop where
  dialer : c.toDialer.Sound
  unstarted : c.servers.firstSelect = true →
    c.servers.currentServer ∈ c.servers.servers ∧ c.loop = .pass ∧ c.closed = false ∧
      c.connectedOnce = false ∧ c.transport = none ∧ c.notifications = 0

/-- The first event is a pass. -/
theorem Sound.eq_pass (h : c.Sound) (hfirst : c.servers.firstSelect = true)
    (hstep : c.step hostPort options e = some c') : ∃ wait now later, e = .pass wait now later := by
  obtain ⟨-, hloop, -, honce, htransport, hnone⟩ := h.unstarted hfirst
  cases e with
  | pass wait now later => exact ⟨wait, now, later, rfl⟩
  | notify => simp [step, hnone] at hstep
  | _ => simp [step, hloop, honce, htransport] at hstep

/-- No event makes the next selection a first one. -/
theorem firstSelect_of_effect {closed : Bool} {d d' : Dialer}
    (he : Effect hostPort options closed d e d') (hmade : d.servers.Made) :
    d'.servers.firstSelect = true →
      d.servers.firstSelect = true ∧ ∀ wait now later, e ≠ .pass wait now later := by
  intro hfirst
  cases he with
  | rest e hpass => exact ⟨hfirst, hpass⟩
  | moved e loop hserver hfrom hto hpass => exact ⟨hfirst, hpass⟩
  | outage => exact ⟨hfirst, nofun⟩
  | update urls blown =>
      exact ⟨(Servers.updates_update hmade hostPort urls).firstSelect ▸ hfirst, nofun⟩
  | error text =>
      rw [Dialer.processError_eq] at hfirst
      exact ⟨hfirst, nofun⟩
  | pass wait now later =>
      exfalso
      have hpass := d.pass_cases closed wait now later
      generalize d.pass closed wait now later = d₁ at hpass hfirst
      cases hpass with
      | exhausted hlater =>
          have hsame : (d.pool closed).firstSelect = true := hfirst
          rw [Dialer.pool_firstSelect, hlater] at hsame
          cases hsame
      | aborted servers srv hselected =>
          exact absurd (hselected.firstSelect.symm.trans hfirst) nofun
      | tries servers srv hselected =>
          rw [Dialer.tryServer] at hfirst
          split at hfirst
          · exact absurd (hselected.firstSelect.symm.trans hfirst) nofun
          · exact absurd (hselected.firstSelect.symm.trans hfirst) nofun
  | failed e srv err hloop herr hpass =>
      obtain ⟨-, -, hsame⟩ := d.catchFailure_sublist options srv err
      exact ⟨hsame ▸ hfirst, hpass⟩
  | connected srv => exact ⟨d.dialed_firstSelect srv ▸ hfirst, nofun⟩
  | reconnected srv =>
      rw [Dialer.cleanUp_eq] at hfirst
      exact ⟨d.dialed_firstSelect srv ▸ hfirst, nofun⟩

theorem sound_new (hostPort : String → String) (listens : List String) :
    (new hostPort listens).Sound := by
  have hservers : (new hostPort listens).servers.servers =
      List.range (new hostPort listens).servers.made := rfl
  have hmade : 0 < (new hostPort listens).servers.made := by
    show 0 < List.length (if _ then _ else _)
    split
    case isTrue => exact Nat.one_pos
    case isFalse hne => exact List.length_pos_iff.2 fun hnil => hne (hnil ▸ rfl)
  refine ⟨⟨fun i hi => ?_, ?_, nofun⟩, fun _ => ⟨?_, rfl, rfl, rfl, rfl, rfl⟩⟩
  · exact List.mem_range.1 (hservers ▸ hi)
  · exact hservers ▸ List.nodup_range
  · exact hservers ▸ List.mem_range.2 hmade

theorem sound_step (h : c.Sound) (hstep : c.step hostPort options e = some c') : c'.Sound := by
  have he := effect_of_step hstep
  constructor
  · apply h.dialer.effect _ he
    intro hfirst
    obtain ⟨hcurrent, -, hclosed, -⟩ := h.unstarted hfirst
    exact ⟨hclosed, hcurrent⟩
  · intro hfirst
    obtain ⟨hbefore, hno⟩ := firstSelect_of_effect he h.dialer.made hfirst
    obtain ⟨wait, now, later, rfl⟩ := h.eq_pass hbefore hstep
    exact absurd rfl (hno wait now later)

theorem sound_reachable
    (h : Reachable (fun c e => c.step hostPort options e) (new hostPort listens) c) : c.Sound :=
  invariant_reachable (fun _ _ _ => sound_step) (sound_new hostPort listens) h

end Client

end NatsClient.Reconnect
