import NatsClient.Reconnect.Pool

/-!
# Giving up on authentication

The documentation of `ignoreAuthErrorAbort`: the client aborts when authentication fails twice in a
row with the same error. `handleAuthError` compares the code of an error with that of `lastError`,
which `disconnected` clears for one of the three codes, and only where the loop was started by a
lost connection. So the error of a failure can outlive the connection that followed it.

* `recent_effect`: where `lastError` comes from;
* `auth_abort_iff`: the aborts are justified exactly where no failure met such an error.
-/

set_option autoImplicit false

namespace NatsClient.Reconnect

open NatsClient.Foundation

/-- The code of the last error that was recorded since the last connection. -/
def recorded : List Entry → Option ErrorCode
  | [] => none
  | .connected _ :: _ => none
  | .error code :: j => if code.isPermissionError then recorded j else some code
  | .tried _ :: j => recorded j
  | .failed _ _ :: j => recorded j
  | .abort :: j => recorded j
  | .gaveUp _ :: j => recorded j

/-- An authentication failure, and one with the same code before it, without a connection between
them. -/
def FailedTwice (j : List Entry) : Prop :=
  ∃ code l₁ l₂, code.isAuthError = true ∧ j = .error code :: l₁ ++ .error code :: l₂ ∧
    ∀ srv, .connected srv ∉ l₁

/-- Every abort follows two failures. -/
def Justified (j : List Entry) : Prop := ∀ l r, j = l ++ .abort :: r → FailedTwice r

theorem justified_nil : Justified [] := fun l r h => by
  cases l <;> cases h

theorem justified_cons {x : Entry} (hx : x ≠ .abort) (j : List Entry) :
    Justified (x :: j) ↔ Justified j := by
  constructor
  · intro h l r hj
    exact h (x :: l) r (hj ▸ rfl)
  · intro h l r hj
    cases l with
    | nil =>
        cases hj
        exact absurd rfl hx
    | cons y l =>
        cases hj
        exact h l r rfl

theorem justified_abort (j : List Entry) :
    Justified (.abort :: j) ↔ FailedTwice j ∧ Justified j := by
  constructor
  · exact fun h => ⟨h [] j rfl, fun l r hj => h (.abort :: l) r (hj ▸ rfl)⟩
  · rintro ⟨htwice, h⟩ l r hj
    cases l with
    | nil =>
        cases hj
        exact htwice
    | cons y l =>
        cases hj
        exact h l r rfl

/-- The recorded error is in the journal, after the last connection. -/
theorem mem_of_recorded {j : List Entry} {code : ErrorCode} (h : recorded j = some code) :
    ∃ l₁ l₂, j = l₁ ++ .error code :: l₂ ∧ ∀ srv, .connected srv ∉ l₁ := by
  induction j with
  | nil => cases h
  | cons x j ih =>
      -- an entry in front that is no connection
      have hmore : ∀ y : Entry, (∀ srv, y ≠ .connected srv) → recorded j = some code →
          ∃ l₁ l₂, y :: j = l₁ ++ .error code :: l₂ ∧ ∀ srv, .connected srv ∉ l₁ := by
        intro y hy hj
        obtain ⟨l₁, l₂, rfl, hno⟩ := ih hj
        refine ⟨y :: l₁, l₂, rfl, fun srv hmem => ?_⟩
        rcases List.mem_cons.1 hmem with heq | hmem
        · exact hy srv heq.symm
        · exact hno srv hmem
      cases x with
      | connected srv => cases h
      | error c =>
          rw [recorded] at h
          split at h
          · exact hmore _ nofun h
          · cases h
            exact ⟨[], j, rfl, nofun⟩
      | tried srv => exact hmore _ nofun h
      | failed srv err => exact hmore _ nofun h
      | abort => exact hmore _ nofun h
      | gaveUp err => exact hmore _ nofun h

/-- A failure since the last connection was recorded. -/
theorem recorded_of_mem {l₁ l₂ : List Entry} {code : ErrorCode} (hauth : code.isAuthError = true)
    (hno : ∀ srv, Entry.connected srv ∉ l₁) : recorded (l₁ ++ .error code :: l₂) ≠ none := by
  induction l₁ with
  | nil =>
      rw [List.nil_append, recorded, ErrorCode.not_isPermissionError_of_isAuthError hauth]
      exact nofun
  | cons x l₁ ih =>
      have hrest := ih fun srv hmem => hno srv (List.mem_cons_of_mem _ hmem)
      cases x with
      | connected srv => exact absurd List.mem_cons_self (hno srv)
      | error c =>
          rw [List.cons_append, recorded]
          split
          · exact hrest
          · exact nofun
      | tried srv => exact hrest
      | failed srv err => exact hrest
      | abort => exact hrest
      | gaveUp err => exact hrest

namespace Dialer

variable {hostPort : String → String} {options : ConnectionOptions} {closed : Bool}
  {d d' : Dialer} {e : Event}

/-- `lastError` has the error that was recorded since the last connection, if there is one. -/
def Recent (d : Dialer) : Prop :=
  ∀ code, recorded d.journal = some code → d.lastError.map NatsError.code = some code

/-- The flag is set where the journal has an abort. -/
def Flagged (d : Dialer) : Prop := d.abortReconnect = true ↔ .abort ∈ d.journal

/-- An entry other than an error, an abort or a connection. -/
theorem recorded_pass (d : Dialer) (closed : Bool) (wait now later : Int) :
    recorded (d.pass closed wait now later).journal = recorded d.journal := by
  rcases d.journal_pass closed wait now later with h | ⟨s, h⟩ | ⟨r, h⟩
  · rw [h]
  · rw [h]
    rfl
  · rw [h]
    rfl

theorem recorded_error (b : Bool) (code : ErrorCode) (j : List Entry) :
    recorded ((if b then [Entry.abort] else []) ++ Entry.error code :: j) =
      if code.isPermissionError then recorded j else some code := by
  cases b <;> rfl

/-- A pass leaves the last error and the flag. -/
theorem pass_lastError (d : Dialer) (closed : Bool) (wait now later : Int) :
    (d.pass closed wait now later).lastError = d.lastError ∧
      (d.pass closed wait now later).abortReconnect = d.abortReconnect := by
  have hpass := d.pass_cases closed wait now later
  generalize d.pass closed wait now later = d₁ at hpass
  cases hpass with
  | exhausted => exact ⟨rfl, rfl⟩
  | aborted => exact ⟨rfl, rfl⟩
  | tries servers srv =>
      rw [tryServer]
      split
      · exact ⟨rfl, rfl⟩
      · exact ⟨rfl, rfl⟩

/-- **Where `lastError` comes from.** -/
theorem Recent.effect (h : d.Recent) (he : Effect hostPort options closed d e d') : d'.Recent := by
  cases he with
  | rest => exact h
  | moved => exact h
  | outage => exact h
  | update => exact h
  | error text =>
      rw [processError_eq]
      intro code hcode
      dsimp only at hcode ⊢
      rw [recorded_error] at hcode
      split at hcode
      case isTrue hperm =>
        rw [if_pos hperm]
        exact h code hcode
      case isFalse hperm =>
        rw [if_neg hperm]
        exact hcode
  | pass wait now later =>
      intro code hcode
      rw [recorded_pass] at hcode
      rw [(d.pass_lastError closed wait now later).1]
      exact h code hcode
  | failed => exact h
  | connected => exact nofun
  | reconnected =>
      rw [cleanUp_eq]
      exact nofun

theorem Flagged.effect (h : d.Flagged) (he : Effect hostPort options closed d e d') :
    d'.Flagged := by
  have hother : ∀ {x : Entry}, x ≠ .abort →
      (d.abortReconnect = true ↔ .abort ∈ x :: d.journal) := by
    intro x hx
    rw [List.mem_cons]
    exact h.trans ⟨.inr, fun hmem => hmem.resolve_left hx.symm⟩
  cases he with
  | rest => exact h
  | moved => exact h
  | outage => exact h
  | update => exact h
  | error text =>
      rw [processError_eq, Flagged]
      cases (toError text).code.isAuthError && d.aborts options (toError text) with
      | true => simp
      | false => simpa using hother (x := .error (toError text).code) nofun
  | pass wait now later =>
      rw [Flagged, (d.pass_lastError closed wait now later).2]
      rcases d.journal_pass closed wait now later with hj | ⟨s, hj⟩ | ⟨r, hj⟩
      · rw [hj]
        exact h
      · rw [hj]
        exact hother nofun
      · rw [hj]
        exact hother nofun
  | failed => exact hother nofun
  | connected => exact hother nofun
  | reconnected =>
      rw [cleanUp_eq]
      exact hother nofun

/-- An authentication failure that makes the client abort meets an error that was recorded since the
last connection. -/
def Timely (options : ConnectionOptions) (d : Dialer) : Event → Prop
  | .error text => ((toError text).code.isAuthError && d.aborts options (toError text)) = true →
      recorded d.journal ≠ none
  | _ => True

/-- The failure that makes the client abort, with the one that the last error is from. -/
theorem failedTwice_iff (h : d.Recent) {err : NatsError} (hauth : err.code.isAuthError = true)
    (haborts : d.aborts options err = true) :
    FailedTwice (.error err.code :: d.journal) ↔ recorded d.journal ≠ none := by
  constructor
  · rintro ⟨code, l₁, l₂, hcode, hj, hno⟩
    obtain ⟨-, hrest⟩ := List.cons.inj hj
    have hrest : d.journal = l₁ ++ .error code :: l₂ := hrest
    rw [hrest]
    exact recorded_of_mem hcode hno
  · intro hsome
    obtain ⟨code, hcode⟩ := Option.ne_none_iff_exists'.1 hsome
    obtain ⟨last, hlast, hsame⟩ :=
      (Option.any_eq_true _ _).1 (Bool.and_eq_true_iff.1 haborts).1
    have heq := h code hcode
    rw [hlast] at heq
    have hcodes : err.code = code := (of_decide_eq_true hsame).trans (Option.some.inj heq)
    obtain ⟨l₁, l₂, hj, hno⟩ := mem_of_recorded hcode
    exact ⟨err.code, l₁, l₂, hauth, by rw [hj, hcodes]; rfl, hno⟩

/-- **A step keeps the aborts justified** exactly where its failure meets no older error. -/
theorem justified_effect (h : d.Recent) (he : Effect hostPort options closed d e d') :
    Justified d'.journal ↔ Justified d.journal ∧ d.Timely options e := by
  have htrue : ∀ {p : Prop}, (p ↔ p ∧ True) := fun {p} => (and_iff_left trivial).symm
  cases he with
  | rest e hpass herror =>
      cases e with
      | error text => exact absurd rfl (herror text)
      | _ => exact htrue
  | moved e loop hserver hfrom hto hpass herror =>
      cases e with
      | error text => exact absurd rfl (herror text)
      | _ => exact htrue
  | outage => exact htrue
  | update => exact htrue
  | error text =>
      rw [processError_eq, Timely]
      dsimp only
      cases hboth : (toError text).code.isAuthError && d.aborts options (toError text) with
      | true =>
          obtain ⟨hauth, haborts⟩ := Bool.and_eq_true_iff.1 hboth
          -- the second of two errors of a kind, which the condition wants to be recent
          rw [if_pos rfl, List.singleton_append, justified_abort, justified_cons (by nofun),
            failedTwice_iff h hauth haborts]
          exact ⟨fun hand => ⟨hand.2, fun _ => hand.1⟩, fun hand => ⟨hand.2 rfl, hand.1⟩⟩
      | false =>
          rw [if_neg Bool.false_ne_true, List.nil_append, justified_cons (by nofun)]
          exact ⟨fun hj => ⟨hj, nofun⟩, And.left⟩
  | pass wait now later =>
      rcases d.journal_pass closed wait now later with hj | ⟨s, hj⟩ | ⟨r, hj⟩
      · rw [hj]
        exact htrue
      · rw [hj, justified_cons (by nofun)]
        exact htrue
      · rw [hj, justified_cons (by nofun)]
        exact htrue
  | failed e srv err hserver herr hpass herror =>
      have hj : (d.catchFailure options srv err).journal = .failed srv err :: d.journal := rfl
      rw [hj, justified_cons (by nofun)]
      cases e with
      | error text => exact absurd rfl (herror text)
      | _ => exact htrue
  | connected srv =>
      have hj : (d.dialed srv).journal = .connected srv :: d.journal := rfl
      rw [hj, justified_cons (by nofun)]
      exact htrue
  | reconnected srv =>
      have hj : (d.dialed srv).cleanUp.journal = .connected srv :: d.journal := by
        rw [cleanUp_eq]
        rfl
      rw [hj, justified_cons (by nofun)]
      exact htrue

end Dialer

namespace Client

variable {hostPort : String → String} {options : ConnectionOptions} {c c' : Client} {e : Event}

/-- No authentication failure meets an error of its code that is left from before the last
connection. -/
def Timely (options : ConnectionOptions) (c : Client) (e : Event) : Prop :=
  c.toDialer.Timely options e

/-- The loop of an open client with a server left gives up on authentication only. -/
theorem gaveUp_step (hstep : c.step hostPort options e = some c') {err : Reason}
    (hj : c'.journal = .gaveUp err :: c.journal) :
    c.closed = true ∨ c.servers.servers = [] ∨ c.abortReconnect = true := by
  have hself : c.journal ≠ .gaveUp err :: c.journal := fun h => List.cons_ne_self _ _ h.symm
  have he := effect_of_step hstep
  generalize c'.toDialer = d' at he hj
  cases he with
  | rest => exact absurd hj hself
  | moved => exact absurd hj hself
  | outage => exact absurd hj hself
  | update => exact absurd hj hself
  | error text =>
      rw [Dialer.processError_eq] at hj
      dsimp only at hj
      split at hj
      · cases hj
      · cases hj
  | pass wait now later =>
      have hpass := c.toDialer.pass_cases c.closed wait now later
      generalize c.toDialer.pass c.closed wait now later = d₁ at hpass hj
      cases hpass with
      | exhausted hfirst hempty =>
          cases hclosed : c.closed with
          | true => exact .inl rfl
          | false =>
              rw [hclosed] at hempty
              exact .inr (.inl hempty)
      | aborted servers srv hselected habort => exact .inr (.inr habort)
      | tries servers srv =>
          rw [Dialer.tryServer] at hj
          split at hj
          · cases hj
          · exact absurd hj hself
  | failed => cases hj
  | connected => cases hj
  | reconnected =>
      rw [Dialer.cleanUp_eq] at hj
      cases hj

/-- **The aborts of a run.** `abortReconnect` is set where the journal has an abort; the loop of an
open client with servers left gives up only then; and each abort follows two authentication failures
with one code and no connection between them, exactly when no step of the run was a failure that
met an error of its code left from before the last connection. -/
theorem auth_abort_iff (hostPort : String → String) (options : ConnectionOptions)
    (listens : List String) (es : List Event) (c : Client)
    (hrun : run (step hostPort options) (new hostPort listens) es = some c) :
    (c.abortReconnect = true ↔ .abort ∈ c.journal) ∧
      (∀ e c' err, c.step hostPort options e = some c' →
        c'.journal = .gaveUp err :: c.journal →
          c.closed = true ∨ c.servers.servers = [] ∨ c.abortReconnect = true) ∧
      (Justified c.journal ↔ Meets (step hostPort options) (Timely options)
        (new hostPort listens) es) := by
  have hflagged : c.toDialer.Flagged := by
    refine invariant_run (I := fun k => k.toDialer.Flagged) ?_ hrun ⟨nofun, nofun⟩
    exact fun k e k' hk hstep => hk.effect (effect_of_step hstep)
  refine ⟨hflagged, fun e c' err hstep hj => gaveUp_step hstep hj, ?_⟩
  have hiff : Justified c.journal ↔ Justified (new hostPort listens).journal ∧
      Meets (step hostPort options) (Timely options) (new hostPort listens) es :=
    iff_meets (I := fun k : Client => k.toDialer.Recent) (C := fun k => Justified k.journal)
      (fun k e k' hk hstep => hk.effect (effect_of_step hstep))
      (fun k e k' hk hstep => Dialer.justified_effect hk (effect_of_step hstep)) hrun nofun
  rw [hiff]
  exact and_iff_right justified_nil

/-- A dial that connects. -/
def accepted (now : Int) : List Event :=
  [.pass 2000 now now, .resolved 1, .info [] none, .pong, .settle]

/-- A dial that the server turns down. -/
def denied (now : Int) : List Event :=
  [.pass 2000 now now, .resolved 1, .info [] none, .error "'Authorization Violation'", .settle]

/-- The connection is lost, and the loop starts. -/
def dropped : List Event := [.lost none, .notify]

/-- Two failures with a connection between them. -/
def deniedTwice : List Event :=
  accepted 1000 ++ dropped ++ denied 5000 ++ accepted 7000 ++ dropped ++ denied 20000 ++
    [.pass 2000 22000 22000]

theorem auth_abort_iff_denied :
    ∃ c : Client, run (step id defaultOptions) (new id ["a"])
      (accepted 1000 ++ dropped ++ denied 5000) =
        some c ∧
      (Justified c.journal ↔ Meets (step id defaultOptions) (Timely defaultOptions) (new id ["a"])
        (accepted 1000 ++ dropped ++ denied 5000)) := by
  have hends : (run (step id defaultOptions) (new id ["a"])
      (accepted 1000 ++ dropped ++ denied 5000)).isSome = true := by decide +kernel
  obtain ⟨c, hrun⟩ := Option.isSome_iff_exists.1 hends
  exact ⟨c, hrun, (auth_abort_iff id defaultOptions ["a"] _ c hrun).2.2⟩

/-- A client whose authentication failed once since its last connection has given up, with its
server in the pool. -/
theorem not_justified_deniedTwice :
    ∃ c : Client, run (step id defaultOptions) (new id ["a"]) deniedTwice = some c ∧
      c.loop = .idle ∧ c.closed = true ∧ c.servers.servers = [0] ∧ c.abortReconnect = true ∧
      ¬ Justified c.journal := by
  let violation : Reason := .nats ⟨"'Authorization Violation'", .AuthorizationViolation⟩
  have hends : (run (step id defaultOptions) (new id ["a"]) deniedTwice).any (fun c =>
      decide (c.loop = .idle ∧ c.closed = true ∧ c.servers.servers = [0] ∧
        c.abortReconnect = true ∧
        c.journal = [.gaveUp violation, .failed 0 (some violation), .abort,
          .error .AuthorizationViolation, .tried 0, .connected 0, .tried 0,
          .failed 0 (some violation), .error .AuthorizationViolation, .tried 0, .connected 0,
          .tried 0])) = true := by
    decide +kernel
  obtain ⟨c, hrun, hc⟩ := (Option.any_eq_true _ _).1 hends
  obtain ⟨hloop, hclosed, hpool, habort, hjournal⟩ := of_decide_eq_true hc
  refine ⟨c, hrun, hloop, hclosed, hpool, habort, fun hjustified => ?_⟩
  obtain ⟨code, l₁, l₂, hauth, hj, hno⟩ :=
    hjustified [.gaveUp violation, .failed 0 (some violation)] _ hjournal
  -- what follows the failure is a try and a connection
  have hrest := (List.cons.inj hj).2
  have hsome : recorded (l₁ ++ .error code :: l₂) ≠ none := recorded_of_mem hauth hno
  exact hsome (congrArg recorded hrest).symm

end Client

end NatsClient.Reconnect
