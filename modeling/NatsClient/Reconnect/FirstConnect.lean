import NatsClient.Reconnect.Outcome

/-!
# The first connection

`connect` with `waitOnFirstConnect` off tries the configured servers one after the other and drops
each that fails. Where the attempt limit does not fire on a first failure, the loop gives up when
all of them were tried, unless authentication made it abort or the client was closed.

* `afterFailure_of_fresh`: a first failure removes the server;
* `covers_step`: each configured server is in the pool or was tried;
* `first_connect`: when the loop gives up, and what it removes.
-/

set_option autoImplicit false

namespace NatsClient.Reconnect

open NatsClient.Foundation

/-- A limit that the first failure of a server does not reach. -/
def SparesFirst (options : ConnectionOptions) : Prop :=
  ∃ mra : Int, options.maxReconnectAttempts = some mra ∧ (mra = -1 ∨ 2 ≤ mra)

namespace Dialer

variable {hostPort : String → String} {options : ConnectionOptions} {closed : Bool}
  {d d' : Dialer} {e : Event}

theorem limitReached_one (h : SparesFirst options) : limitReached options 1 = false := by
  obtain ⟨mra, hmra, hlimit⟩ := h
  rw [limitReached, hmra, Option.getD_some]
  rcases hlimit with rfl | hlimit
  · rfl
  · have hlt : ¬ mra ≤ ((1 : Nat) : Int) := by omega
    show (decide _ && decide (mra ≤ ((1 : Nat) : Int))) = false
    rw [decide_eq_false hlt, Bool.and_false]

/-- **A failed dial before the first connection** removes its server and no other. -/
theorem failed_servers_of_first (hspares : SparesFirst options)
    (hwait : options.waitOnFirstConnect = false) (hcounted : d.Counted) (hsound : d.Sound)
    (honce : d.connectedOnce = false) {srv : Nat} (hloop : d.loop.server = some srv)
    (err : Option Reason) :
    srv ∈ d.servers.servers ∧
      (d.catchFailure options srv err).servers.servers = d.servers.servers.erase srv := by
  obtain ⟨hcurrent, hmem, -⟩ := hsound.tried srv hloop
  refine ⟨hmem, ?_⟩
  rw [catchFailure_of_first honce hwait, afterFailure_of_first hcurrent hmem hsound.nodup,
    hcounted.fresh honce srv hmem, limitReached_one hspares]
  rfl

/-- Each configured server is in the pool or was tried; and when the loop gave up, all were tried,
or the client aborted, or it was closed. -/
structure Covers (configured : List Nat) (closed : Bool) (d : Dialer) : Prop where
  kept : ∀ i ∈ configured, i < d.servers.made ∧ (d.servers.impl i).gossiped = false
  trying : ∀ srv, d.loop.server = some srv → .tried srv ∈ d.journal
  covered : d.connectedOnce = false → closed = false →
    ∀ i ∈ configured, i ∈ d.servers.servers ∨ .tried i ∈ d.journal
  gaveUp : d.connectedOnce = false → ∀ err, .gaveUp err ∈ d.journal →
    (∀ i ∈ configured, .tried i ∈ d.journal) ∨ d.abortReconnect = true ∨ closed = true

variable {configured : List Nat}

/-- A longer journal over the same pool. -/
theorem Covers.of_suffix (h : d.Covers configured closed) (hmade : d'.servers.made = d.servers.made)
    (hgossiped : ∀ i, (d'.servers.impl i).gossiped = (d.servers.impl i).gossiped)
    (hsub : ∀ x ∈ d.journal, x ∈ d'.journal) (htrying : ∀ srv, d'.loop.server = some srv →
      .tried srv ∈ d'.journal) (honce : d'.connectedOnce = d.connectedOnce)
    (hpool : closed = false → ∀ i ∈ d.servers.servers, i ∈ d'.servers.servers)
    (habort : d.abortReconnect = true → d'.abortReconnect = true)
    (hgave : ∀ err, .gaveUp err ∈ d'.journal → .gaveUp err ∈ d.journal) :
    d'.Covers configured closed := by
  refine ⟨fun i hi => ?_, htrying, fun hc hopen i hi => ?_, fun hc err herr => ?_⟩
  · rw [hmade, hgossiped]
    exact h.kept i hi
  · exact (h.covered (honce ▸ hc) hopen i hi).imp (hpool hopen i) (hsub _)
  · rcases h.gaveUp (honce ▸ hc) err (hgave err herr) with hall | ha | hc
    · exact .inl fun i hi => hsub _ (hall i hi)
    · exact .inr (.inl (habort ha))
    · exact .inr (.inr hc)

/-- A client that connected promises nothing more. -/
theorem Covers.of_connected (h : d.Covers configured closed)
    (hmade : d'.servers.made = d.servers.made)
    (hgossiped : ∀ i, (d'.servers.impl i).gossiped = (d.servers.impl i).gossiped)
    (hloop : d'.loop.server = none) (honce : d'.connectedOnce = true) :
    d'.Covers configured closed := by
  refine ⟨fun i hi => ?_, fun srv hsrv => ?_, fun hc => ?_, fun hc => ?_⟩
  · rw [hmade, hgossiped]
    exact h.kept i hi
  · rw [hloop] at hsrv
    cases hsrv
  · rw [honce] at hc
    cases hc
  · rw [honce] at hc
    cases hc

/-- A try of a server. -/
theorem Covers.tryServer (h : d.Covers configured closed) (srv : Nat) (wait now later : Int) :
    (d.tryServer srv wait now later).Covers configured closed := by
  rw [Dialer.tryServer]
  split
  · refine h.of_suffix rfl (fun i => Servers.modify_field ServerImpl.gossiped (·.dialedAt later)
      (fun _ => rfl) d.servers srv i) (fun x hx => List.mem_cons_of_mem _ hx) ?_ rfl
      (fun _ i hi => hi) id ?_
    · rintro _ ⟨⟩
      exact List.mem_cons_self
    · intro err hmem
      exact (List.mem_cons.1 hmem).resolve_left (fun hno => by cases hno)
  · refine h.of_suffix rfl (fun _ => rfl) (fun x hx => hx) (fun s hs => ?_) rfl
      (fun _ i hi => hi) id (fun _ hmem => hmem)
    cases hs

/-- The end of the loop. -/
theorem Covers.giveUp (h : d.Covers configured closed)
    (hwhy : d.connectedOnce = false → d.servers.servers = [] ∨ d.abortReconnect = true ∨
      closed = true) : d.giveUp.Covers configured closed := by
  refine ⟨h.kept, nofun, fun hc hopen i hi => ?_, fun hc err herr => ?_⟩
  · exact (h.covered hc hopen i hi).imp_right (List.mem_cons_of_mem _)
  · rcases hwhy hc with hempty | hwhy
    · cases closed with
      | true => exact .inr (.inr rfl)
      | false =>
          left
          intro i hi
          rcases h.covered hc rfl i hi with hmem | htried
          · rw [hempty] at hmem
            cases hmem
          · exact List.mem_cons_of_mem _ htried
    · exact .inr hwhy

/-- **What the loop has covered**, after every step. -/
theorem Covers.effect (h : d.Covers configured closed) (hspares : SparesFirst options)
    (hwait : options.waitOnFirstConnect = false) (hcounted : d.Counted) (hsound : d.Sound)
    (he : Effect hostPort options closed d e d') : d'.Covers configured closed := by
  cases he with
  | rest => exact h
  | moved e loop hserver =>
      exact ⟨h.kept, fun srv hsrv => h.trying srv (hserver ▸ hsrv), h.covered, h.gaveUp⟩
  | outage => exact ⟨h.kept, nofun, h.covered, h.gaveUp⟩
  | update urls =>
      have hupdates := Servers.updates_update hsound.made hostPort urls
      refine ⟨fun i hi => ?_, h.trying, fun hc hopen i hi => ?_, h.gaveUp⟩
      · obtain ⟨hmade, hown⟩ := h.kept i hi
        refine ⟨hmade.trans_le hupdates.made, ?_⟩
        show ((d.servers.update hostPort urls).1.impl i).gossiped = false
        rw [hupdates.impl i hmade]
        exact hown
      · -- a configured server is not gossiped
        refine (h.covered hc hopen i hi).imp_left fun hmem => ?_
        exact hupdates.kept i hmem (.inl (h.kept i hi).2)
  | error text =>
      rw [processError_eq]
      have hsub : ∀ x ∈ d.journal, x ∈ (if (toError text).code.isAuthError &&
          d.aborts options (toError text) then [Entry.abort] else []) ++
            Entry.error (toError text).code :: d.journal := fun x hx =>
        List.mem_append_right _ (List.mem_cons_of_mem _ hx)
      refine h.of_suffix rfl (fun _ => rfl) hsub (fun srv hsrv => hsub _ (h.trying srv hsrv)) rfl
        (fun _ i hi => hi) (fun ha => ?_) (fun err hmem => ?_)
      · dsimp only
        rw [ha, Bool.true_or]
      · dsimp only at hmem
        split at hmem
        · simpa using hmem
        · simpa using hmem
  | pass wait now later hloop =>
      have hstill : ∀ srv, d.loop.server = some srv → Entry.tried srv ∈ d.journal := h.trying
      have hpass := d.pass_cases closed wait now later
      generalize d.pass closed wait now later = d₁ at hpass
      cases hpass with
      | exhausted hfirst hempty =>
          apply Covers.giveUp
          · refine h.of_suffix (d.pool_made closed) (fun i => ?_) (fun x hx => hx) hstill rfl ?_ id
              (fun _ hmem => hmem)
            · exact congrArg (fun f => (f i).gossiped) (d.pool_impl closed)
            · rintro rfl i hi
              exact hi
          · exact fun _ => .inl hempty
      | aborted servers srv hselected habort =>
          apply Covers.giveUp
          · refine h.of_suffix (made_of_selected hselected) (fun i => ?_)
              (fun x hx => hx) hstill rfl ?_ id (fun _ hmem => hmem)
            · exact congrArg (fun f => (f i).gossiped) (impl_of_selected hselected)
            · rintro rfl i hi
              exact hselected.perm.mem_iff.2 hi
          · exact fun _ => .inr (.inl habort)
      | tries servers srv hselected =>
          apply Covers.tryServer
          refine h.of_suffix (made_of_selected hselected) (fun i => ?_)
            (fun x hx => hx) hstill rfl ?_ id (fun _ hmem => hmem)
          · exact congrArg (fun f => (f i).gossiped) (impl_of_selected hselected)
          · rintro rfl i hi
            exact hselected.perm.mem_iff.2 hi
  | failed e srv err hserver =>
      have hgossiped : ∀ i, ((d.catchFailure options srv err).servers.impl i).gossiped =
          (d.servers.impl i).gossiped := fun i =>
        catchFailure_field ServerImpl.gossiped (fun _ => rfl) options d srv err i
      have hmade := (d.catchFailure_sublist options srv err).2.1
      cases honce : d.connectedOnce with
      | true => exact h.of_connected hmade hgossiped rfl honce
      | false =>
          obtain ⟨hmem, hpool⟩ :=
            failed_servers_of_first hspares hwait hcounted hsound honce hserver err
          have hkeep : ∀ i, i ∈ d.servers.servers → i ≠ srv →
              i ∈ (d.catchFailure options srv err).servers.servers := fun i hi hne =>
            hpool ▸ hsound.nodup.mem_erase_iff.2 ⟨hne, hi⟩
          refine ⟨fun i hi => ?_, nofun, fun hc hopen i hi => ?_, fun hc r hr => ?_⟩
          · rw [hmade, hgossiped]
            exact h.kept i hi
          · -- the server that failed was tried
            by_cases heq : i = srv
            · right
              rw [heq]
              exact List.mem_cons_of_mem _ (h.trying srv hserver)
            · exact (h.covered hc hopen i hi).imp (fun hin => hkeep i hin heq)
                (List.mem_cons_of_mem _)
          · rcases h.gaveUp hc r ((List.mem_cons.1 hr).resolve_left nofun) with hall | hwhy
            · exact .inl fun i hi => List.mem_cons_of_mem _ (hall i hi)
            · exact .inr hwhy
  | connected srv =>
      exact h.of_connected (d.dialed_made srv)
        (fun i => dialed_field ServerImpl.gossiped (fun _ => rfl) d srv i) rfl rfl
  | reconnected srv =>
      rw [cleanUp_eq]
      exact h.of_connected (d.dialed_made srv)
        (fun i => dialed_field ServerImpl.gossiped (fun _ => rfl) d srv i) rfl rfl

/-- Closing the client weakens what is promised. -/
theorem Covers.mono (h : d.Covers configured closed) {closed' : Bool}
    (hle : closed = true → closed' = true) : d.Covers configured closed' := by
  refine ⟨h.kept, h.trying, fun hc hopen => h.covered hc ?_, fun hc err herr => ?_⟩
  · cases closed with
    | false => rfl
    | true =>
        rw [hle rfl] at hopen
        cases hopen
  · exact (h.gaveUp hc err herr).imp_right (Or.imp_right hle)

end Dialer

namespace Client

variable {hostPort : String → String} {options : ConnectionOptions} {listens : List String}
  {c c' : Client} {e : Event} {es : List Event} {configured : List Nat}

theorem covers_new (hostPort : String → String) (listens : List String) :
    (new hostPort listens).toDialer.Covers (new hostPort listens).servers.servers false := by
  refine ⟨fun i hi => ⟨(sound_new hostPort listens).dialer.made i hi, rfl⟩, nofun, ?_, nofun⟩
  exact fun _ _ i hi => .inl hi

theorem covers_step (hspares : SparesFirst options) (hwait : options.waitOnFirstConnect = false)
    (htracked : c.Tracked) (h : c.toDialer.Covers configured c.closed)
    (hstep : c.step hostPort options e = some c') : c'.toDialer.Covers configured c'.closed := by
  have hcovers := h.effect hspares hwait htracked.counted htracked.sound.dialer
    (effect_of_step hstep)
  exact hcovers.mono (closed_step hstep)

/-- **The first connection.** In every run of a client that has not connected, with
`waitOnFirstConnect` off and a limit that spares a first failure: when the loop gave up, each
configured server was tried, or authentication made the client abort, or it was closed; and each
dial that fails removes its server from the pool and no other. -/
theorem first_connect (hostPort : String → String) (options : ConnectionOptions)
    (listens : List String) (es : List Event) (c : Client)
    (hwait : options.waitOnFirstConnect = false) (hspares : SparesFirst options)
    (hrun : run (step hostPort options) (new hostPort listens) es = some c)
    (honce : c.connectedOnce = false) :
    (∀ err, .gaveUp err ∈ c.journal →
      (∀ i ∈ (new hostPort listens).servers.servers, .tried i ∈ c.journal) ∨
        c.abortReconnect = true ∨ c.closed = true) ∧
      (∀ e c' srv err, c.step hostPort options e = some c' →
        c'.journal = .failed srv err :: c.journal →
          c.servers.servers.Nodup ∧ srv ∈ c.servers.servers ∧
            c'.servers.servers = c.servers.servers.erase srv) := by
  have hboth : c.Tracked ∧
      c.toDialer.Covers (new hostPort listens).servers.servers c.closed := by
    refine invariant_run (I := fun k => k.Tracked ∧
      k.toDialer.Covers (new hostPort listens).servers.servers k.closed) ?_ hrun
      ⟨tracked_new hostPort listens, covers_new hostPort listens⟩
    rintro k e k' ⟨htracked, hcovers⟩ hstep
    exact ⟨tracked_step htracked hstep, covers_step hspares hwait htracked hcovers hstep⟩
  obtain ⟨htracked, hcovers⟩ := hboth
  refine ⟨hcovers.gaveUp honce, fun e c' srv err hstep hj => ?_⟩
  obtain ⟨hserver, hd, -⟩ := Dialer.eq_catchFailure (effect_of_step hstep) hj
  obtain ⟨hmem, hpool⟩ := Dialer.failed_servers_of_first hspares hwait htracked.counted
    htracked.sound.dialer honce hserver err
  exact ⟨htracked.sound.dialer.nodup, hmem, hd ▸ hpool⟩

/-- A dial that no server answers. -/
def unanswered (now : Int) : List Event :=
  [.pass 2000 now now, .resolved 1, .fail (.nats connectionRefused), .settle]

theorem first_connect_unanswered :
    ∃ c : Client, run (step id defaultOptions) (new id ["a", "b"])
        (unanswered 1000 ++ unanswered 1000 ++ [.pass 2000 1000 1000]) = some c ∧
      c.loop = .idle ∧ ((∀ i ∈ (new id ["a", "b"]).servers.servers, .tried i ∈ c.journal) ∨
        c.abortReconnect = true ∨ c.closed = true) := by
  have hends : (run (step id defaultOptions) (new id ["a", "b"])
      (unanswered 1000 ++ unanswered 1000 ++ [.pass 2000 1000 1000])).any (fun c =>
        decide (c.loop = .idle ∧ c.connectedOnce = false ∧
          .gaveUp (.nats connectionRefused) ∈ c.journal)) = true := by decide +kernel
  obtain ⟨c, hrun, hc⟩ := (Option.any_eq_true _ _).1 hends
  obtain ⟨hloop, honce, hgave⟩ := of_decide_eq_true hc
  exact ⟨c, hrun, hloop, (first_connect id defaultOptions ["a", "b"] _ c rfl
    ⟨10, rfl, .inr (by decide)⟩ hrun honce).1 _ hgave⟩

/-- A dial that the server turns down. -/
def turnedDown (now : Int) : List Event :=
  [.pass 2000 now now, .resolved 1, .info [] none, .error "'Authorization Violation'", .settle]

/-- With three servers the loop gives up before the third was tried: after two authentication
failures; after the authenticator threw; and with a limit of one attempt, where the first failure
removes the last server too. -/
theorem first_connect_incomplete :
    (∃ c : Client, run (step id defaultOptions) (new id ["a", "b", "c"])
        (turnedDown 1000 ++ turnedDown 1000 ++ [.pass 2000 1000 1000]) = some c ∧
      c.connectedOnce = false ∧ c.loop = .idle ∧ .tried 2 ∉ c.journal ∧ c.servers.servers = [2]) ∧
    (∃ c : Client, run (step id defaultOptions) (new id ["a", "b", "c"])
        [.pass 2000 1000 1000, .resolved 1, .info [] (some (.other "nonce")), .settle,
          .pass 2000 1000 1000] = some c ∧
      c.connectedOnce = false ∧ c.loop = .idle ∧ .tried 2 ∉ c.journal) ∧
    (∃ c : Client, run (step id { defaultOptions with maxReconnectAttempts := some 1 })
        (new id ["a", "b", "c"]) (unanswered 1000) = some c ∧ c.servers.servers = [1]) ∧
    ∃ c : Client, run (step id { defaultOptions with maxReconnectAttempts := some 1 })
        (new id ["a", "b", "c"])
        (unanswered 1000 ++ unanswered 1000 ++ [.pass 2000 1000 1000]) = some c ∧
      c.connectedOnce = false ∧ c.loop = .idle ∧ .tried 2 ∉ c.journal := by
  refine ⟨?_, ?_, ?_, ?_⟩
  · have hends : (run (step id defaultOptions) (new id ["a", "b", "c"])
        (turnedDown 1000 ++ turnedDown 1000 ++ [.pass 2000 1000 1000])).any (fun c =>
          decide (c.connectedOnce = false ∧ c.loop = .idle ∧ .tried 2 ∉ c.journal ∧
            c.servers.servers = [2])) = true := by decide +kernel
    obtain ⟨c, hrun, hc⟩ := (Option.any_eq_true _ _).1 hends
    exact ⟨c, hrun, of_decide_eq_true hc⟩
  · have hends : (run (step id defaultOptions) (new id ["a", "b", "c"])
        [.pass 2000 1000 1000, .resolved 1, .info [] (some (.other "nonce")), .settle,
          .pass 2000 1000 1000]).any (fun c =>
          decide (c.connectedOnce = false ∧ c.loop = .idle ∧ .tried 2 ∉ c.journal)) = true := by
      decide +kernel
    obtain ⟨c, hrun, hc⟩ := (Option.any_eq_true _ _).1 hends
    exact ⟨c, hrun, of_decide_eq_true hc⟩
  · have hends : (run (step id { defaultOptions with maxReconnectAttempts := some 1 })
        (new id ["a", "b", "c"]) (unanswered 1000)).any (fun c =>
          decide (c.servers.servers = [1])) = true := by decide +kernel
    obtain ⟨c, hrun, hc⟩ := (Option.any_eq_true _ _).1 hends
    exact ⟨c, hrun, of_decide_eq_true hc⟩
  · have hends : (run (step id { defaultOptions with maxReconnectAttempts := some 1 })
        (new id ["a", "b", "c"])
        (unanswered 1000 ++ unanswered 1000 ++ [.pass 2000 1000 1000])).any (fun c =>
          decide (c.connectedOnce = false ∧ c.loop = .idle ∧ .tried 2 ∉ c.journal)) = true := by
      decide +kernel
    obtain ⟨c, hrun, hc⟩ := (Option.any_eq_true _ _).1 hends
    exact ⟨c, hrun, of_decide_eq_true hc⟩

end Client

end NatsClient.Reconnect
