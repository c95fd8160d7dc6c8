import NatsClient.Reconnect.Pool
import Mathlib.Algebra.BigOperators.Group.List.Basic
import Mathlib.Algebra.GroupWithZero.Nat

/-!
# Attempts per server

How often the dial loop tries a server of a client that connected once: what `maxReconnectAttempts`
bounds, and when a server is removed.

* `Counted.effect`: `reconnects` is the number of the tries since the server connected;
* `Limited.effect`: it stays below the limit in the pool;
* `failed_servers`: a failed dial removes the server that reached the limit.
-/

set_option autoImplicit false

namespace NatsClient.Reconnect

open NatsClient.Foundation

def Entry.isConnected : Entry → Bool
  | connected _ => true
  | _ => false

/-- The tries of a server after the client connected once, since the server last connected. -/
def tries (srv : Nat) : List Entry → Nat
  | [] => 0
  | .tried s :: j => tries srv j + if s = srv ∧ j.any Entry.isConnected then 1 else 0
  | .connected s :: j => if s = srv then 0 else tries srv j
  | .failed _ _ :: j => tries srv j
  | .error _ :: j => tries srv j
  | .abort :: j => tries srv j
  | .gaveUp _ :: j => tries srv j

theorem tries_of_not_connected {j : List Entry} (h : j.any Entry.isConnected = false) (srv : Nat) :
    tries srv j = 0 := by
  induction j with
  | nil => rfl
  | cons e j ih =>
      obtain ⟨he, hj⟩ := Bool.or_eq_false_iff.1 (List.any_cons ▸ h)
      cases e with
      | tried s =>
          rw [tries, ih hj, hj, if_neg fun hand => Bool.false_ne_true hand.2]
      | connected s => cases he
      | failed => exact ih hj
      | error => exact ih hj
      | abort => exact ih hj
      | gaveUp => exact ih hj

/-- Entries of an error do not count. -/
theorem tries_error (srv : Nat) (b : Bool) (code : ErrorCode) (j : List Entry) :
    tries srv ((if b then [Entry.abort] else []) ++ Entry.error code :: j) = tries srv j := by
  cases b <;> rfl

theorem any_error (b : Bool) (code : ErrorCode) (j : List Entry) :
    ((if b then [Entry.abort] else []) ++ Entry.error code :: j).any Entry.isConnected =
      j.any Entry.isConnected := by
  cases b <;> rfl

namespace Dialer

variable {hostPort : String → String} {options : ConnectionOptions} {closed : Bool}
  {d d' : Dialer} {e : Event} {i n : Nat}

/-- Whether a server is being tried. -/
def trying (d : Dialer) (srv : Nat) : Nat := if d.loop.server = some srv then 1 else 0

/-- `reconnects` counts the tries that failed. -/
structure Counted (d : Dialer) : Prop where
  once : d.connectedOnce = d.journal.any Entry.isConnected
  unmade : ∀ s, d.servers.made ≤ s → tries s d.journal = 0
  counts : d.connectedOnce = true → ∀ s ∈ d.servers.servers,
    (d.servers.impl s).reconnects + d.trying s = tries s d.journal
  fresh : d.connectedOnce = false → ∀ s ∈ d.servers.servers, (d.servers.impl s).reconnects = 0

/-- Before the client connected nothing counts. -/
theorem Counted.early (h : d.Counted) (honce : d.connectedOnce = false) (s : Nat) :
    tries s d.journal = 0 := tries_of_not_connected (h.once.symm.trans honce) s

/-- A dialer with a part of the pool and the same counts. -/
theorem Counted.of_same (h : d.Counted) (hloop : d.loop.server = none)
    (hloop' : d'.loop.server = none) (honce : d'.connectedOnce = d.connectedOnce)
    (hpool : ∀ s ∈ d'.servers.servers, s ∈ d.servers.servers)
    (hmade : d'.servers.made = d.servers.made)
    (hcount : ∀ s, (d'.servers.impl s).reconnects = (d.servers.impl s).reconnects)
    (hany : d'.journal.any Entry.isConnected = d.journal.any Entry.isConnected)
    (htries : ∀ s, tries s d'.journal = tries s d.journal) : d'.Counted := by
  refine ⟨?_, fun s hs => ?_, fun hc s hs => ?_, fun hc s hs => ?_⟩
  · rw [honce, hany, h.once]
  · rw [htries]
    exact h.unmade s (hmade ▸ hs)
  · have hold := h.counts (honce ▸ hc) s (hpool s hs)
    rw [trying, hloop] at hold
    rw [trying, hloop', hcount, htries, ← hold]
  · rw [hcount]
    exact h.fresh (honce ▸ hc) s (hpool s hs)

/-- A try counts while it lasts. -/
theorem Counted.tryServer (h : d.Counted) (hloop : d.loop.server = none) {srv : Nat}
    (hmade : srv < d.servers.made) (wait now later : Int) :
    (d.tryServer srv wait now later).Counted := by
  have hcount : ∀ s, ((d.servers.modify srv (·.dialedAt later)).impl s).reconnects =
      (d.servers.impl s).reconnects := fun s =>
    Servers.modify_field ServerImpl.reconnects (·.dialedAt later) (fun _ => rfl) d.servers srv s
  rw [Dialer.tryServer]
  split
  · constructor
    · exact h.once
    · intro s hs
      have hne : srv ≠ s := fun heq => Nat.not_le.2 hmade (heq ▸ hs)
      simp only [tries, hne, false_and, if_false, h.unmade s hs]
    · intro hc s hs
      have hold := h.counts hc s hs
      rw [trying, hloop] at hold
      have hany : d.journal.any Entry.isConnected = true := h.once.symm.trans hc
      rw [hcount, tries, hany, ← hold]
      simp [trying, DialLoop.server]
    · intro hc s hs
      rw [hcount]
      exact h.fresh hc s hs
  · exact h.of_same hloop rfl rfl (fun _ hs => hs) rfl (fun _ => rfl) rfl (fun _ => rfl)

/-- What a failed dial does to the counts. -/
theorem catchFailure_reconnects (hsound : d.Sound) {srv : Nat} (hloop : d.loop.server = some srv)
    (err : Option Reason) {s : Nat} (hs : s ∈ (d.catchFailure options srv err).servers.servers) :
    ((d.catchFailure options srv err).servers.impl s).reconnects =
      if d.connectedOnce = true ∧ s = srv then (d.servers.impl s).reconnects + 1
      else (d.servers.impl s).reconnects := by
  obtain ⟨hcurrent, hmem, -⟩ := hsound.tried srv hloop
  have hcount : ((d.servers.modify srv ServerImpl.failedOnce).impl s).reconnects =
      if s = srv then (d.servers.impl s).reconnects + 1 else (d.servers.impl s).reconnects := by
    rw [Servers.modify_impl]
    split
    case isTrue heq =>
      rw [heq]
      rfl
    case isFalse => rfl
  cases honce : d.connectedOnce with
  | true =>
      rw [catchFailure_of_connected honce, afterFailure_of_connected hcurrent hmem]
      simpa only [true_and] using hcount
  | false =>
      rw [if_neg fun hand => Bool.false_ne_true hand.1]
      cases hwait : options.waitOnFirstConnect with
      | true => rw [catchFailure_of_wait honce hwait]
      | false =>
          rw [catchFailure_of_first honce hwait,
            afterFailure_of_first hcurrent hmem hsound.nodup] at hs ⊢
          -- the server that failed is out of the pool
          have hleft : s ∈ d.servers.servers.erase srv := by
            dsimp only at hs
            split at hs
            · exact (List.dropLast_sublist _).subset hs
            · exact hs
          have hne : s ≠ srv := (hsound.nodup.mem_erase_iff.1 hleft).1
          exact hcount.trans (if_neg hne)

/-- A failed try counts on. -/
theorem Counted.catchFailure (h : d.Counted) (hsound : d.Sound) {srv : Nat}
    (hloop : d.loop.server = some srv) (err : Option Reason) :
    (d.catchFailure options srv err).Counted := by
  obtain ⟨hsub, hmade, -⟩ := d.catchFailure_sublist options srv err
  constructor
  · exact h.once
  · intro s hs
    exact h.unmade s (hmade ▸ hs)
  · intro hc s hs
    have hold := h.counts hc s (hsub.subset hs)
    have honce : d.connectedOnce = true := hc
    rw [catchFailure_reconnects hsound hloop err hs]
    show _ + 0 = tries s d.journal
    rw [← hold, trying, hloop]
    by_cases heq : s = srv
    · simp [heq, honce]
    · simp [heq, Ne.symm heq]
  · intro hc s hs
    have honce : d.connectedOnce = false := hc
    rw [catchFailure_reconnects hsound hloop err hs, honce, if_neg (by simp)]
    exact h.fresh hc s (hsub.subset hs)

/-- The counter of a server that connected starts again. -/
theorem dialed_reconnects (hserver : d.server = some i) (srv s : Nat) :
    ((d.dialed srv).servers.impl s).reconnects =
      if s = i then 0 else (d.servers.impl s).reconnects := by
  simp only [dialed, hserver]
  rw [Servers.modify_impl]
  split <;> rfl

theorem Counted.dialed (h : d.Counted) (hsound : d.Sound) {srv : Nat}
    (hloop : d.loop.server = some srv) : (d.dialed srv).Counted := by
  obtain ⟨-, hmem, hserver⟩ := hsound.tried srv hloop
  have hmade : srv < d.servers.made := hsound.made srv hmem
  constructor
  · rfl
  · intro s hs
    rw [dialed_made] at hs
    show (if srv = s then 0 else tries s d.journal) = 0
    split
    · rfl
    · exact h.unmade s hs
  · intro _ s hs
    rw [dialed_servers] at hs
    rw [dialed_reconnects hserver]
    show _ + 0 = if srv = s then 0 else tries s d.journal
    by_cases heq : s = srv
    · rw [if_pos heq, if_pos heq.symm]
    · rw [if_neg heq, if_neg (Ne.symm heq), Nat.add_zero]
      cases honce : d.connectedOnce with
      | true =>
          have hold := h.counts honce s hs
          rw [trying, hloop, if_neg fun hsame => heq (Option.some.inj hsame).symm] at hold
          exact hold
      | false => rw [h.fresh honce s hs, h.early honce s]
  · exact fun hc => absurd hc nofun

/-- **`reconnects` counts the tries** since the server connected. -/
theorem Counted.effect (h : d.Counted) (hsound : d.Sound)
    (hfirst : d.servers.firstSelect = true →
      closed = false ∧ d.servers.currentServer ∈ d.servers.servers)
    (he : Effect hostPort options closed d e d') : d'.Counted := by
  cases he with
  | rest => exact h
  | moved e loop hserver =>
      refine ⟨h.once, h.unmade, fun hc s hs => ?_, h.fresh⟩
      have hold := h.counts hc s hs
      rw [trying, ← hserver] at hold
      exact hold
  | outage hloop =>
      exact h.of_same (hloop ▸ rfl) rfl rfl (fun _ hs => hs) rfl (fun _ => rfl) rfl (fun _ => rfl)
  | update urls =>
      have hupdates := Servers.updates_update hsound.made hostPort urls
      constructor
      · exact h.once
      · exact fun s hs => h.unmade s (hupdates.made.trans hs)
      · intro hc s hs
        rcases hupdates.mem s hs with hold | ⟨hnew, -, -, hzero, -⟩
        · show ((d.servers.update hostPort urls).1.impl s).reconnects + _ = _
          rw [hupdates.impl s (hsound.made s hold)]
          exact h.counts hc s hold
        · -- a new server has no tries, and is not the one that is tried
          have hne : d.loop.server ≠ some s := fun hsrv =>
            Nat.not_le.2 (hsound.made s (hsound.tried s hsrv).2.1) hnew
          show ((d.servers.update hostPort urls).1.impl s).reconnects + d.trying s = _
          rw [hzero, trying, if_neg hne]
          exact (h.unmade s hnew).symm
      · intro hc s hs
        rcases hupdates.mem s hs with hold | ⟨-, -, -, hzero, -⟩
        · show ((d.servers.update hostPort urls).1.impl s).reconnects = 0
          rw [hupdates.impl s (hsound.made s hold)]
          exact h.fresh hc s hold
        · exact hzero
  | error text =>
      rw [processError_eq]
      refine ⟨?_, fun s hs => ?_, fun hc s hs => ?_, h.fresh⟩
      · show d.connectedOnce = _
        rw [any_error]
        exact h.once
      · show tries s (_ ++ _) = 0
        rw [tries_error]
        exact h.unmade s hs
      · show (d.servers.impl s).reconnects + d.trying s = tries s (_ ++ _)
        rw [tries_error]
        exact h.counts hc s hs
  | pass wait now later hloop =>
      have hserver : d.loop.server = none := hloop ▸ rfl
      have hpass := d.pass_cases closed wait now later
      generalize d.pass closed wait now later = d₁ at hpass
      cases hpass with
      | exhausted =>
          exact h.of_same hserver rfl rfl (fun s hs => (d.pool_sublist closed).subset hs)
            (d.pool_made closed)
            (fun s => congrArg (fun f => (f s).reconnects) (d.pool_impl closed))
            rfl (fun _ => rfl)
      | aborted servers srv hselected =>
          refine h.of_same hserver rfl rfl (fun s hs => ?_) ?_ (fun s => ?_) rfl (fun _ => rfl)
          · exact mem_of_selected hselected hs
          · exact made_of_selected hselected
          · exact congrArg (fun f => (f s).reconnects) (impl_of_selected hselected)
      | tries servers srv hselected =>
          obtain ⟨hmade, -, hmem⟩ := hsound.of_selected hfirst hselected
          have hnext : Counted { d with servers, server := some srv } := by
            refine h.of_same hserver hserver rfl (fun s hs => ?_) ?_ (fun s => ?_) rfl
              (fun _ => rfl)
            · exact mem_of_selected hselected hs
            · exact made_of_selected hselected
            · exact congrArg (fun f => (f s).reconnects) (impl_of_selected hselected)
          exact hnext.tryServer hserver (hmade srv hmem) wait now later
  | failed e srv err hloop => exact h.catchFailure hsound hloop err
  | connected srv alts hloop => exact h.dialed hsound (hloop ▸ rfl)
  | reconnected srv alts hloop =>
      rw [cleanUp_eq]
      have hnext : (d.dialed srv).Counted := h.dialed hsound (hloop ▸ rfl)
      exact ⟨hnext.once, hnext.unmade, hnext.counts, hnext.fresh⟩

/-! ## The limit -/

/-- The limit `n` on the tries of each server. -/
structure Limited (n : Nat) (d : Dialer) : Prop where
  below : d.connectedOnce = true → ∀ s ∈ d.servers.servers, (d.servers.impl s).reconnects < n
  bounded : ∀ s, tries s d.journal ≤ n

theorem Limited.of_same (h : d.Limited n) (honce : d'.connectedOnce = d.connectedOnce)
    (hpool : ∀ s ∈ d'.servers.servers, s ∈ d.servers.servers)
    (hcount : ∀ s, (d'.servers.impl s).reconnects = (d.servers.impl s).reconnects)
    (htries : ∀ s, tries s d'.journal = tries s d.journal) : d'.Limited n := by
  refine ⟨fun hc s hs => ?_, fun s => ?_⟩
  · rw [hcount]
    exact h.below (honce ▸ hc) s (hpool s hs)
  · rw [htries]
    exact h.bounded s

theorem Limited.tryServer (h : d.Limited n) (hcounted : d.Counted) (hloop : d.loop.server = none)
    {srv : Nat} (hmem : srv ∈ d.servers.servers) (wait now later : Int) :
    (d.tryServer srv wait now later).Limited n := by
  rw [Dialer.tryServer]
  split
  · constructor
    · intro hc s hs
      have hbelow := h.below hc s hs
      show ((d.servers.modify srv (·.dialedAt later)).impl s).reconnects < n
      rw [Servers.modify_impl]
      split
      case isTrue heq => exact heq ▸ hbelow
      case isFalse => exact hbelow
    · intro s
      rw [tries]
      split
      case isTrue hboth =>
        -- the try of a server of the pool: its counter is below the limit
        obtain ⟨rfl, hany⟩ := hboth
        have hc : d.connectedOnce = true := hcounted.once.trans hany
        have hold := hcounted.counts hc srv hmem
        rw [trying, hloop, if_neg (Option.some_ne_none srv).symm, Nat.add_zero] at hold
        rw [← hold]
        exact h.below hc srv hmem
      case isFalse => exact h.bounded s
  · exact h.of_same rfl (fun _ hs => hs) (fun _ => rfl) (fun _ => rfl)

theorem Limited.catchFailure (h : d.Limited n)
    (hmra : options.maxReconnectAttempts = some (n : Int)) (hsound : d.Sound) {srv : Nat}
    (hloop : d.loop.server = some srv) (err : Option Reason) :
    (d.catchFailure options srv err).Limited n := by
  obtain ⟨hcurrent, hmem, -⟩ := hsound.tried srv hloop
  obtain ⟨hsub, -, -⟩ := d.catchFailure_sublist options srv err
  refine ⟨fun hc s hs => ?_, h.bounded⟩
  have honce : d.connectedOnce = true := hc
  have hbelow := h.below honce s (hsub.subset hs)
  rw [catchFailure_reconnects hsound hloop err hs]
  split
  case isTrue hboth =>
    obtain ⟨-, rfl⟩ := hboth
    rw [catchFailure_of_connected honce, afterFailure_of_connected hcurrent hmem] at hs
    dsimp only at hs
    split at hs
    case isTrue => exact absurd hs hsound.nodup.not_mem_erase
    case isFalse hlimit =>
      -- the server stays because its counter is below the limit
      simp only [limitReached, hmra, Option.getD_some, Bool.and_eq_true, decide_eq_true_eq,
        not_and] at hlimit
      have hle := hlimit (by omega)
      omega
  case isFalse => exact hbelow

theorem Limited.dialed (h : d.Limited n) (hn : 1 ≤ n) (hcounted : d.Counted) {srv : Nat}
    (hserver : d.server = some srv) : (d.dialed srv).Limited n := by
  constructor
  · intro _ s hs
    rw [dialed_servers] at hs
    rw [dialed_reconnects hserver]
    split
    · exact hn
    · cases honce : d.connectedOnce with
      | true => exact h.below honce s hs
      | false =>
          rw [hcounted.fresh honce s hs]
          exact hn
  · intro s
    show (if srv = s then 0 else tries s d.journal) ≤ n
    split
    · exact Nat.zero_le n
    · exact h.bounded s

/-- **The limit holds** after every step. -/
theorem Limited.effect (h : d.Limited n) (hmra : options.maxReconnectAttempts = some (n : Int))
    (hn : 1 ≤ n) (hcounted : d.Counted) (hsound : d.Sound)
    (hfirst : d.servers.firstSelect = true →
      closed = false ∧ d.servers.currentServer ∈ d.servers.servers)
    (he : Effect hostPort options closed d e d') : d'.Limited n := by
  cases he with
  | rest => exact h
  | moved => exact h.of_same rfl (fun _ hs => hs) (fun _ => rfl) (fun _ => rfl)
  | outage => exact h.of_same rfl (fun _ hs => hs) (fun _ => rfl) (fun _ => rfl)
  | update urls =>
      have hupdates := Servers.updates_update hsound.made hostPort urls
      refine ⟨fun hc s hs => ?_, h.bounded⟩
      -- a server that an INFO reports is new, or keeps its count
      rcases hupdates.mem s hs with hold | ⟨-, -, -, hzero, -⟩
      · show ((d.servers.update hostPort urls).1.impl s).reconnects < n
        rw [hupdates.impl s (hsound.made s hold)]
        exact h.below hc s hold
      · show ((d.servers.update hostPort urls).1.impl s).reconnects < n
        rw [hzero]
        exact hn
  | error text =>
      rw [processError_eq]
      exact h.of_same rfl (fun _ hs => hs) (fun _ => rfl) (fun s => tries_error s _ _ _)
  | pass wait now later hloop =>
      have hserver : d.loop.server = none := hloop ▸ rfl
      have hpass := d.pass_cases closed wait now later
      generalize d.pass closed wait now later = d₁ at hpass
      cases hpass with
      | exhausted =>
          exact h.of_same rfl (fun s hs => (d.pool_sublist closed).subset hs)
            (fun s => congrArg (fun f => (f s).reconnects) (d.pool_impl closed)) (fun _ => rfl)
      | aborted servers srv hselected =>
          refine h.of_same rfl (fun s hs => ?_) (fun s => ?_) (fun _ => rfl)
          · exact mem_of_selected hselected hs
          · exact congrArg (fun f => (f s).reconnects) (impl_of_selected hselected)
      | tries servers srv hselected =>
          obtain ⟨-, -, hmem⟩ := hsound.of_selected hfirst hselected
          have hsub : ∀ s ∈ servers.servers, s ∈ d.servers.servers := fun s hs =>
            mem_of_selected hselected hs
          have himpl : servers.impl = d.servers.impl := impl_of_selected hselected
          have hsame : ∀ s, (servers.impl s).reconnects = (d.servers.impl s).reconnects :=
            fun s => congrArg (fun f => (f s).reconnects) himpl
          have hcount : Counted { d with servers, server := some srv } :=
            hcounted.of_same hserver hserver rfl hsub
              (made_of_selected hselected) hsame rfl (fun _ => rfl)
          have hnext : Limited n { d with servers, server := some srv } :=
            h.of_same rfl hsub hsame (fun _ => rfl)
          -- the server that is tried next was below its limit
          exact hnext.tryServer hcount hserver hmem wait now later
  -- a server whose dial fails at the limit is taken out
  | failed e srv err hloop => exact h.catchFailure hmra hsound hloop err
  | connected srv alts hloop =>
      exact h.dialed hn hcounted (hsound.tried srv (hloop ▸ rfl)).2.2
  | reconnected srv alts hloop =>
      rw [cleanUp_eq]
      have hnext := h.dialed hn hcounted (hsound.tried srv (hloop ▸ rfl)).2.2
      exact ⟨hnext.below, hnext.bounded⟩

/-- **A failed dial removes the server at the limit**, and no other. -/
theorem failed_servers (hmra : options.maxReconnectAttempts = some (n : Int)) (h : d.Limited n)
    (hcounted : d.Counted) (hsound : d.Sound) (honce : d.connectedOnce = true) {srv : Nat}
    (hloop : d.loop.server = some srv) (err : Option Reason) :
    srv ∈ d.servers.servers ∧
      (d.catchFailure options srv err).servers.servers =
        if tries srv d.journal = n then d.servers.servers.erase srv else d.servers.servers := by
  obtain ⟨hcurrent, hmem, -⟩ := hsound.tried srv hloop
  have htries : (d.servers.impl srv).reconnects + 1 = tries srv d.journal := by
    rw [← hcounted.counts honce srv hmem, trying, if_pos hloop]
  have hle := h.bounded srv
  have hlimit : limitReached options (tries srv d.journal) = decide (tries srv d.journal = n) := by
    rw [limitReached, hmra, Option.getD_some]
    by_cases heq : tries srv d.journal = n
    · simp [heq]
    · have hlt : ¬(n : Int) ≤ (tries srv d.journal : Int) := by omega
      simp [heq, hlt]
  refine ⟨hmem, ?_⟩
  rw [catchFailure_of_connected honce, afterFailure_of_connected hcurrent hmem, htries, hlimit]
  by_cases heq : tries srv d.journal = n
  · simp [heq]
  · simp [heq]

/-- Without a limit a failed dial removes no server. -/
theorem failed_servers_of_no_limit (hmra : options.maxReconnectAttempts = some (-1))
    (hsound : d.Sound) (honce : d.connectedOnce = true) {srv : Nat}
    (hloop : d.loop.server = some srv) (err : Option Reason) :
    (d.catchFailure options srv err).servers.servers = d.servers.servers := by
  obtain ⟨hcurrent, hmem, -⟩ := hsound.tried srv hloop
  rw [catchFailure_of_connected honce, afterFailure_of_connected hcurrent hmem]
  simp [limitReached, hmra]

/-! ## The tries that are left -/

/-- The tries that the pool has left. -/
def attemptsLeft (n : Nat) (d : Dialer) : Nat :=
  (d.servers.servers.map fun s => n - tries s d.journal).sum

theorem attemptsLeft_congr (hpool : d'.servers.servers.Perm d.servers.servers)
    (htries : ∀ s ∈ d.servers.servers, tries s d'.journal = tries s d.journal) :
    d'.attemptsLeft n = d.attemptsLeft n := by
  rw [attemptsLeft, (hpool.map _).sum_eq, attemptsLeft]
  apply congrArg List.sum
  apply List.map_congr_left
  intro s hs
  rw [htries s hs]

/-- What a server of the pool adds to a sum over the pool. -/
theorem sum_erase {pool : List Nat} {srv : Nat} (h : srv ∈ pool) (f : Nat → Nat) :
    (pool.map f).sum = f srv + ((pool.erase srv).map f).sum := by
  rw [((List.perm_cons_erase h).map f).sum_eq, List.map_cons, List.sum_cons]

/-- A try takes one of those that are left. -/
theorem attemptsLeft_tried (hpool : d'.servers.servers = d.servers.servers)
    (hnodup : d.servers.servers.Nodup) {srv : Nat} (hmem : srv ∈ d.servers.servers)
    (hone : tries srv d'.journal = tries srv d.journal + 1) (hlt : tries srv d.journal < n)
    (hother : ∀ s, s ≠ srv → tries s d'.journal = tries s d.journal) :
    d'.attemptsLeft n + 1 = d.attemptsLeft n := by
  have hrest : (d.servers.servers.erase srv).map (fun s => n - tries s d'.journal) =
      (d.servers.servers.erase srv).map fun s => n - tries s d.journal := by
    apply List.map_congr_left
    intro s hs
    rw [hother s (hnodup.mem_erase_iff.1 hs).1]
  rw [attemptsLeft, attemptsLeft, hpool, sum_erase hmem, sum_erase hmem, hrest, hone]
  omega

/-- A removed server had none left. -/
theorem attemptsLeft_failed (hmra : options.maxReconnectAttempts = some (n : Int))
    (h : d.Limited n) (hcounted : d.Counted) (hsound : d.Sound) (honce : d.connectedOnce = true)
    {srv : Nat} (hloop : d.loop.server = some srv) (err : Option Reason) :
    (d.catchFailure options srv err).attemptsLeft n = d.attemptsLeft n := by
  obtain ⟨hmem, hpool⟩ := failed_servers hmra h hcounted hsound honce hloop err
  have htries : ∀ s, tries s (d.catchFailure options srv err).journal = tries s d.journal :=
    fun s => rfl
  simp only [attemptsLeft, hpool, htries]
  split
  case isTrue hn => rw [sum_erase hmem, hn, Nat.sub_self, Nat.zero_add]
  case isFalse => rfl

end Dialer

end NatsClient.Reconnect
