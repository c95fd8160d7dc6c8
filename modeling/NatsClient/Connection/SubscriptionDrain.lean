import NatsClient.Connection.Pipeline

/-!
# Draining a subscription

A drained subscription loses nothing (`drain_loses_nothing`). Over all runs the messages that the
server sent for a sid of the table are those that were dispatched and those in flight, and a
subscription that has not ended was given the dispatched ones (`Balanced`). While a drained
subscription waits for its PONG nothing takes it out of the table, so they go on to be dispatched to
it, and when the PONG is read none is in flight (`Drains`).

The subscription has to be left alone meanwhile: who unsubscribes or moves it, stops its iterator or
lets its timer fire loses what is in flight (`not_drain_loses_nothing`).
-/

set_option autoImplicit false

namespace NatsClient.Connection

open NatsClient.Foundation NatsClient.Iterator

variable {μ E : Type}

/-- The messages of a log for a sid. -/
def loggedFor (sid : Nat) (log : List (Nat × μ)) : List μ := (log.filter (·.1 = sid)).map Prod.snd

theorem loggedFor_concat (sid n : Nat) (v : μ) (log : List (Nat × μ)) :
    loggedFor sid (log ++ [(n, v)]) = loggedFor sid log ++ if n = sid then [v] else [] := by
  rw [loggedFor, List.filter_append, List.map_append]
  congr 1
  by_cases hn : n = sid
  · simp [hn]
  · simp [hn]

/-! ## The table -/

namespace ProtocolHandler

variable {h h' : ProtocolHandler μ E} {e : Event μ E}

theorem step_prepare {l : Link} (hl : h.link.step .prepare = some l) :
    h.step (.link .prepare) = some (h.setLink l) := by
  simp only [step, hl]
  rfl

/-- The keys of the table stay in order, and a new one is a new sid. -/
theorem table_step (hk : h.Keyed) (hstep : h.step e = some h') :
    h'.Keyed ∧ h.sidCounter ≤ h'.sidCounter ∧ ∀ x ∈ h'.subs, x ∈ h.subs ∨ h.sidCounter < x.1 := by
  obtain ⟨sids, hw⟩ := writes_step (covers_all h e) hstep
  refine ⟨hw.keyed hk, hw.sids_eq.1, fun x hx => ?_⟩
  rcases hw.subs x hx with hnew | hold
  · exact .inr (hw.mem_sids.1 hnew).1
  · exact .inl hold

/-- The sids of the SUBs that are on their way were handed out. -/
def SubsUsed (h : ProtocolHandler μ E) : Prop := ∀ sid ∈ h.link.subs, sid ≤ h.sidCounter

theorem SubsUsed.advance (hu : h.SubsUsed) (ha : Advances h h') : h'.SubsUsed := by
  intro sid hmem
  obtain ⟨xs, hxs, -, hrange⟩ := ha.carries
  rcases List.mem_append.1 (hxs.subs.subset hmem) with hold | hnew
  · exact Nat.le_trans (hu sid hold) ha.counter
  · exact (hrange sid hnew).2

theorem subsUsed_step (hu : h.SubsUsed) (hk : h.Keyed) (hc : h.link.Controlled)
    (hstep : h.step e = some h') : h'.SubsUsed := by
  by_cases hdone : e = .dialDone
  · subst hdone
    cases step_of_eq hstep with
    | dialDone l _ hlink =>
        cases Link.step_of_eq hlink with
        | dialDone =>
            intro sid hmem
            have hsub := subs_dialDone h.link h.subCommands
            rw [subSids_subCommands hk] at hsub
            rcases List.mem_append.1 (hsub.subset hmem) with hsent | hmem
            · exact hu sid (List.mem_append_left _ hsent)
            · rcases List.mem_append.1 hmem with htable | houtbound
              · split at htable
                · cases htable
                · obtain ⟨x, hx, rfl⟩ := List.mem_map.1 htable
                  exact hk.le x hx
              · exact hu sid (List.mem_append_right _ houtbound)
  · by_cases hprepare : e = .link .prepare
    · subst hprepare
      cases step_of_eq hstep with
      | link _ l _ hlink =>
          -- a new transport was sent nothing, and the buffer is empty
          cases Link.step_of_eq hlink with
          | prepare =>
              intro sid hmem
              rw [link_setLink] at hmem
              cases hmem
    · exact hu.advance (advances_step hc hprepare hdone hstep)

theorem Tidy.mono {log log' : Nat → List μ} (hi : h.Tidy log) (hlog : ∀ sid, log' sid <:+ log sid) :
    h.Tidy log' := by
  refine ⟨hi.numbered, hi.draining, hi.parked, fun o s hs => ?_⟩
  refine (hi.feeds o s hs).imp_right fun ⟨hmem, vs, hfed, hvs⟩ => ⟨hmem, vs, hfed, fun hkind => ?_⟩
  exact (hlog s.sid).trans (hvs hkind)

end ProtocolHandler

namespace Session

variable {s s' : Session μ E} {e : Event μ E} {sid d o : Nat}

/-- What the server sent for a sid, on the present connection. -/
def servedTo (s : Session μ E) (sid : Nat) : List μ := loggedFor sid s.served

/-- What was dispatched for a sid. -/
def dispatchedTo (s : Session μ E) (sid : Nat) : List μ := loggedFor sid s.dispatched

/-- What was sent for a sid of the table was dispatched, or is in flight. -/
structure Balanced (s : Session μ E) : Prop where
  wired : s.Wired
  keyed : s.client.Keyed
  used : s.client.SubsUsed
  tidy : s.client.Tidy s.dispatchedTo
  unused : ∀ sid, s.client.sidCounter < sid → s.server.interest sid = none ∧
    messagesFor sid s.inbound = [] ∧ s.servedTo sid = [] ∧ s.dispatchedTo sid = []
  balance : ∀ x ∈ s.client.subs, s.servedTo x.1 = s.dispatchedTo x.1 ++ messagesFor x.1 s.inbound

theorem balanced_new (pendingLimit maxOut : Nat) :
    (new pendingLimit maxOut : Session μ E).Balanced where
  wired := wired_new pendingLimit maxOut
  keyed := (ProtocolHandler.once_new pendingLimit maxOut).keyed
  used := fun _ hmem => by cases hmem
  tidy := ⟨ProtocolHandler.numbered_new pendingLimit maxOut, fun _ hx => (by cases hx),
    fun _ _ hs => (by cases hs), fun _ _ hs => (by cases hs)⟩
  unused _ _ := ⟨rfl, rfl, rfl, rfl⟩
  balance := fun _ hx => by cases hx

/-- A sid with an entry was handed out. -/
theorem Balanced.le_of_interest (hb : s.Balanced) {entry : Interest}
    (hentry : s.server.interest sid = some entry) : sid ≤ s.client.sidCounter := by
  by_contra hlt
  obtain ⟨hnone, -⟩ := hb.unused sid (Nat.lt_of_not_le hlt)
  rw [hnone] at hentry
  cases hentry

/-- An event of the client that is neither a frame nor the start of a dial. -/
theorem Balanced.client {client : ProtocolHandler μ E} {e : ProtocolHandler.Event μ E}
    (hb : s.Balanced) (hframe : ¬ isFrame e = true) (hstep : s.client.step e = some client)
    (hwired : ({ s with client := client } : Session μ E).Wired) :
    ({ s with client := client } : Session μ E).Balanced := by
  obtain ⟨hkeyed, hcounter, hsubs⟩ := ProtocolHandler.table_step hb.keyed hstep
  refine ⟨hwired, hkeyed, ProtocolHandler.subsUsed_step hb.used hb.keyed hb.wired.link.controlled
    hstep, ?_, ?_, ?_⟩
  · exact hb.tidy.step (fun sid hlt => (hb.unused sid hlt).2.2.2) hframe hstep
  · exact fun sid hlt => hb.unused sid (Nat.lt_of_le_of_lt hcounter hlt)
  · intro x hx
    rcases hsubs x hx with hold | hnew
    · exact hb.balance x hold
    · obtain ⟨-, hflight, hserved, hdispatched⟩ := hb.unused x.1 hnew
      show s.servedTo x.1 = s.dispatchedTo x.1 ++ messagesFor x.1 s.inbound
      rw [hflight, hserved, hdispatched, List.nil_append]

/-- **A message is dispatched**, where its sid is in the table. -/
theorem Balanced.message {n : Nat} {v : μ} {cs : List Call} {inbound : List (Inbound μ)}
    (hb : s.Balanced) (hread : s.inbound = .msg n v :: inbound)
    (hstep : s.step (.receive cs) = some s') : s'.Balanced := by
  have hwired := wired_step hb.wired hstep
  have heq : s' = { s with
      client := s.client.processMsg n v cs
      inbound := inbound
      dispatched :=
        if (s.client.get n).isSome then s.dispatched ++ [(n, v)] else s.dispatched } := by
    simp only [step, hread] at hstep
    exact (Option.some.inj hstep).symm
  have hclient : s.client.step (.message n v cs) = some (s.client.processMsg n v cs) := rfl
  obtain ⟨hkeyed, hcounter, hsubs⟩ := ProtocolHandler.table_step hb.keyed hclient
  have hused := ProtocolHandler.subsUsed_step hb.used hb.keyed hb.wired.link.controlled hclient
  have hflight : ∀ i, messagesFor i s.inbound = (if n = i then [v] else []) ++ messagesFor i
      inbound := by
    intro i
    rw [hread, messagesFor]
    split <;> rfl
  have hlog : ∀ i, s'.dispatchedTo i =
      s.dispatchedTo i ++ if (s.client.get n).isSome ∧ n = i then [v] else [] := by
    intro i
    rw [heq, dispatchedTo]
    cases hget : s.client.get n with
    | none =>
        simp only [Option.isSome_none, Bool.false_eq_true, if_false, false_and, List.append_nil]
        rfl
    | some o =>
        simp only [Option.isSome_some, if_true, true_and]
        exact loggedFor_concat i n v s.dispatched
  -- no sid that is not used yet is in the table
  have hunused : ∀ i, s.client.sidCounter < i → s.server.interest i = none ∧
      messagesFor i inbound = [] ∧ s.servedTo i = [] ∧ s'.dispatchedTo i = [] := by
    intro i hlt
    obtain ⟨hinterest, hnone, hserved, hdispatched⟩ := hb.unused i hlt
    rw [hflight, List.append_eq_nil_iff] at hnone
    refine ⟨hinterest, hnone.2, hserved, ?_⟩
    rw [hlog, hdispatched, if_neg, List.append_nil]
    rintro ⟨hsome, rfl⟩
    obtain ⟨o, hget⟩ := Option.isSome_iff_exists.1 hsome
    exact Nat.not_lt.2 (hb.keyed.le _ (ProtocolHandler.mem_of_get hget)) hlt
  have hbalance : ∀ x ∈ s.client.subs, s.servedTo x.1 = s'.dispatchedTo x.1 ++ messagesFor x.1
      inbound := by
    intro x hx
    have hget : s.client.get x.1 = some x.2 := ProtocolHandler.get_of_mem hb.keyed.nodup hx
    rw [hb.balance x hx, hflight, hlog, List.append_assoc]
    congr 2
    by_cases hn : n = x.1
    · rw [hn, hget, if_pos rfl, if_pos ⟨rfl, rfl⟩]
    · rw [if_neg hn, if_neg fun h => hn h.2]
  have htidy : (s.client.processMsg n v cs).Tidy s'.dispatchedTo := by
    cases hget : s.client.get n with
    | none =>
        have hsame : s'.dispatchedTo = s.dispatchedTo := by
          funext i
          rw [hlog, hget, if_neg fun h => (by cases h.1), List.append_nil]
        rw [ProtocolHandler.processMsg, hget, hsame]
        exact hb.tidy
    | some o =>
        obtain ⟨x, hx, hsid⟩ := hb.keyed.mem n o (ProtocolHandler.mem_of_get hget)
        refine hb.tidy.processMsg hget hx hsid (fun i hlt => (hunused i hlt).2.2.2) ?_
          fun i hi => ?_
        · rw [hlog, hget, if_pos ⟨rfl, rfl⟩]
        · rw [hlog, if_neg fun h => hi h.2.symm, List.append_nil]
  subst heq
  refine ⟨hwired, hkeyed, hused, htidy, fun i hlt => hunused i (Nat.lt_of_le_of_lt hcounter hlt),
    fun x hx => ?_⟩
  rcases hsubs x hx with hold | hnew
  · exact hbalance x hold
  · obtain ⟨-, hnone, hserved, hdispatched⟩ := hunused x.1 hnew
    exact hserved.trans (by rw [hnone, hdispatched, List.nil_append])

/-- **Every step.** -/
theorem balanced_step (hb : s.Balanced) (hstep : s.step e = some s') : s'.Balanced := by
  have hwired := wired_step hb.wired hstep
  have heq := step_of_eq hstep
  cases heq with
  | dial link =>
      have hclient := ProtocolHandler.step_prepare link
      obtain ⟨hkeyed, -, -⟩ := ProtocolHandler.table_step hb.keyed hclient
      have hused := ProtocolHandler.subsUsed_step hb.used hb.keyed hb.wired.link.controlled hclient
      have htidy :=
        hb.tidy.step (fun sid hlt => (hb.unused sid hlt).2.2.2) (fun h => by cases h) hclient
      exact ⟨hwired, hkeyed, hused, htidy.mono fun _ => List.nil_suffix,
        fun _ _ => ⟨rfl, rfl, rfl, rfl⟩, fun _ _ => rfl⟩
  | client frame prepare step => exact hb.client frame step hwired
  | message read => exact hb.message read hstep
  | pong read =>
      rename_i n cs inbound
      have hflight : ∀ sid, messagesFor sid s.inbound = messagesFor sid inbound :=
        fun sid => by rw [read, messagesFor]
      refine ⟨hwired, ⟨hb.keyed.mem, hb.keyed.nodup, hb.keyed.le⟩, ?_, ?_, ?_, ?_⟩
      · intro sid hmem
        have hcarries := (Link.carries_processPong s.client.link).subs
        rw [List.append_nil] at hcarries
        exact hb.used sid (hcarries.subset hmem)
      · exact (ProtocolHandler.touches_link (P := fun _ => True) s.client _).tidy
          (fun sid hlt => (hb.unused sid hlt).2.2.2) hb.tidy
      · intro sid hlt
        rw [← hflight]
        exact hb.unused sid hlt
      · intro x hx
        rw [← hflight]
        exact hb.balance x hx
  | take sent =>
      rename_i f
      have hflight : ∀ sid, messagesFor sid (s.inbound ++ Server.answer f) =
          messagesFor sid s.inbound := by
        intro sid
        rw [messagesFor_append, messagesFor_answer, List.append_nil]
      refine ⟨hwired, hb.keyed, hb.used, hb.tidy, fun sid hlt => ?_, fun x hx => ?_⟩
      · obtain ⟨hinterest, hnone, hlogs⟩ := hb.unused sid hlt
        refine ⟨?_, (hflight sid).trans hnone, hlogs⟩
        show (s.server.read f).interest sid = none
        rw [s.server.interest_read, hinterest]
        cases hcommand : onSid sid f with
        | none => rfl
        | some c =>
            cases c with
            | unsub max => cases max <;> rfl
            | sub subject queue =>
                -- such a SUB is on its way for used sids only
                have hsub := List.mem_of_getElem? sent
                rw [eq_of_onSid_sub hcommand] at hsub
                have hmem : sid ∈ s.client.link.subs :=
                  List.mem_append_left _ (mem_subSids.2 ⟨subject, queue, hsub⟩)
                exact absurd (hb.used sid hmem) (Nat.not_le.2 hlt)
      · exact (hb.balance x hx).trans (congrArg _ (hflight x.1).symm)
  | deliver interest =>
      rename_i n v entry
      have hle := hb.le_of_interest interest
      have hflight : ∀ sid, messagesFor sid (s.inbound ++ [.msg n v]) =
          messagesFor sid s.inbound ++ if n = sid then [v] else [] := by
        intro sid
        rw [messagesFor_append, messagesFor, messagesFor]
      have hserved : ∀ sid, loggedFor sid (s.served ++ [(n, v)]) = s.servedTo sid ++ if n = sid
          then [v] else [] :=
        fun sid => loggedFor_concat sid n v s.served
      refine ⟨hwired, hb.keyed, hb.used, hb.tidy, fun sid hlt => ?_, fun x hx => ?_⟩
      · have hne : n ≠ sid := by
          rintro rfl
          exact Nat.not_lt.2 hle hlt
        obtain ⟨hinterest, hnone, hnoneServed, hdispatched⟩ := hb.unused sid hlt
        refine ⟨?_, ?_, ?_, hdispatched⟩
        · rw [s.server.interest_deliver n entry sid interest, if_neg (Ne.symm hne)]
          exact hinterest
        · rw [hflight, hnone, if_neg hne, List.nil_append]
        · exact (hserved sid).trans (by rw [hnoneServed, if_neg hne, List.nil_append])
      · refine (hserved x.1).trans ?_
        rw [hb.balance x hx, hflight, List.append_assoc]
        rfl

end Session

/-! ## A subscription that waits for its PONG -/

namespace ProtocolHandler

variable {h h' : ProtocolHandler μ E} {s s' : SubscriptionImpl μ E} {o d : Nat}

/-- Subscription `o` drains and is in the table; its drain waits for the deferred. Nothing has
stopped an iterator. -/
structure Waits (h : ProtocolHandler μ E) (o d : Nat) (s : SubscriptionImpl μ E) : Prop where
  found : h.objs[o]? = some s
  mem : (s.sid, o) ∈ h.subs
  draining : s.draining = true
  max : s.max = none
  drains : ∀ x ∈ h.drains, x.1 = o → x.2 = d
  gathers : s.noIterator = false → s.Gathers []

theorem Waits.guards (hw : h.Waits o d s) : h.Guards (· ≠ o) := by
  intro i hi
  rw [not_not.1 hi]
  exact ⟨s, hw.found, hw.draining, hw.max⟩

/-- What does not touch it leaves it as it is. -/
theorem Waits.touches (hw : h.Waits o d s) (hn : h.Numbered) (ht : Touches (· ≠ o) h h') :
    h'.Waits o d s where
  found := ht.untouched (fun hne => hne rfl) hw.found
  mem := ht.mem hn (fun hne => hne rfl) hw.found hw.mem
  draining := hw.draining
  max := hw.max
  drains x hx hxo := hw.drains x (ht.mem_drains (fun hne => hne hxo) hx) hxo
  gathers := hw.gathers

theorem Waits.setObj (hw : h.Waits o d s) (hsid : s'.sid = s.sid)
    (hdraining : s'.draining = s.draining) (hmax : s'.max = s.max)
    (hgathers : s'.noIterator = false → s'.Gathers []) : (h.setObj o s').Waits o d s' where
  found := setObj_self hw.found
  mem := hsid ▸ hw.mem
  draining := hdraining.trans hw.draining
  max := hmax.trans hw.max
  drains := hw.drains
  gathers := hgathers

theorem Waits.setObj_ne (hw : h.Waits o d s) {i : Nat} (hi : o ≠ i) (x : SubscriptionImpl μ E) :
    (h.setObj i x).Waits o d s where
  found := (ProtocolHandler.setObj_ne hi).trans hw.found
  mem := hw.mem
  draining := hw.draining
  max := hw.max
  drains := hw.drains
  gathers := hw.gathers

/-- **Every event** that leaves it in the table, until its deferred is settled: its consumer goes
on. -/
theorem Waits.step {e : Event μ E} (hw : h.Waits o d s) (hn : h.Numbered)
    (hframe : ¬ Session.isFrame e = true) (hkeeps : s.noIterator = false → e.Keeps o)
    (hcalls : ∀ c ∈ e.calls, c.Within (· ≠ o)) (hpending : h.link.outcome d = none)
    (hopen : h'.link.closed = false) (hstep : h.step e = some h') :
    ∃ s', h'.Waits o d s' ∧ s'.sid = s.sid ∧ s'.noIterator = s.noIterator := by
  have hall : h'.link.closed = true → ∀ i, i ≠ o := by
    intro hclosed
    rw [hopen] at hclosed
    cases hclosed
  have hdrained : ∀ i n, e = .drained i n → i ≠ o := by
    rintro i n rfl rfl
    cases step_of_eq hstep with
    | drained _ _ hmem hsettled =>
        obtain rfl : n = d := hw.drains _ hmem rfl
        exact hsettled hpending
  rcases touches_step hw.guards hframe hcalls hdrained hall hstep with
    ht | ⟨i, x, x', hx, hturns, ht⟩
  · exact ⟨s, hw.touches hn ht, rfl, rfl⟩
  · have hsid : x'.sid = x.sid := congrArg Prod.fst hturns.registration
    have hn' := hn.setObj hx hsid
    by_cases hi : o = i
    · subst hi
      rw [hw.found, Option.some.injEq] at hx
      subst hx
      have hgathers : x'.noIterator = false → x'.Gathers [] := by
        intro hkind
        rw [hturns.kind] at hkind
        cases hturns with
        | next next => exact (hw.gathers hkind).next next
        | stop | leave | timeout => exact absurd rfl (hkeeps hkind)
      have hset := hw.setObj hsid (congrArg (·.2.2.2.1) hturns.registration)
        (congrArg (·.2.2.2.2.1) hturns.registration) hgathers
      exact ⟨x', hset.touches hn' ht, hsid, hturns.kind⟩
    · exact ⟨s, (hw.setObj_ne hi x').touches hn' ht, rfl, rfl⟩

/-- **Every message**, be it for its sid or not. -/
theorem Waits.processMsg (hw : h.Waits o d s) (hn : h.Numbered) {sid : Nat} {v : μ} {cs : List Call}
    (hcalls : ∀ c ∈ cs, c.Within (· ≠ o)) (hopen : (h.processMsg sid v cs).link.closed = false) :
    ∃ s', (h.processMsg sid v cs).Waits o d s' ∧ s'.sid = s.sid ∧ s'.noIterator = s.noIterator := by
  cases hget : h.get sid with
  | none =>
      rw [ProtocolHandler.processMsg, hget]
      exact ⟨s, hw, rfl, rfl⟩
  | some i =>
      cases hx : h.objs[i]? with
      | none =>
          simp only [ProtocolHandler.processMsg, hget, hx]
          exact ⟨s, hw, rfl, rfl⟩
      | some x =>
          have hall : (h.processMsg sid v cs).link.closed = true → ∀ i, i ≠ o := by
            intro hclosed
            rw [hopen] at hclosed
            cases hclosed
          have hn' := hn.setObj hx (x.sid_gets v)
          by_cases hi : o = i
          · subst hi
            rw [hw.found, Option.some.injEq] at hx
            subst hx
            have hgathers : (s.gets v).noIterator = false → (s.gets v).Gathers [] := by
              intro hkind
              rw [s.kind_gets] at hkind
              obtain ⟨vs, hfed, -⟩ := (hw.gathers hkind).gets v
              exact ⟨vs, hfed, fun _ => List.nil_suffix⟩
            have hset := hw.setObj (s.sid_gets v) (s.draining_gets v) (s.max_gets v) hgathers
            have ht := touches_processMsg hget hw.found hset.guards hcalls hall
            exact ⟨s.gets v, hset.touches hn' ht, s.sid_gets v, s.kind_gets v⟩
          · have hset := hw.setObj_ne hi (x.gets v)
            have ht := touches_processMsg hget hx hset.guards hcalls hall
            exact ⟨s, hset.touches hn' ht, rfl, rfl⟩

/-- **`drain()`** sends the UNSUB and the PING, and waits. -/
theorem waits_drainSub {log : Nat → List μ} (hi : h.Tidy log) (hs : h.objs[o]? = some s)
    (hgoing : ¬ s.Ended) (hfirst : s.draining = false) (hopen : h.link.closed = false) :
    (h.drainSub o).link = (h.link.sendCommand (.unsub s.sid none)).flush ∧
      ∃ s', (h.drainSub o).Waits o h.link.deferreds.created s' ∧ s'.sid = s.sid ∧
      s'.noIterator = s.noIterator := by
  have hdone : s.isClosed = false := Bool.eq_false_iff.2 fun hdone => hgoing (.inl hdone)
  have heq : h.drainSub o =
      { (h.sendCommand (.unsub s.sid none)).setObj o { s with draining := true, max := none } with
        link := (h.link.sendCommand (.unsub s.sid none)).flush
        drains := h.drains ++ [(o, h.link.deferreds.created)] } := by
    have hset : (h.setObj o { s with draining := true }).link.closed = false := hopen
    simp only [drainSub, hs, hopen, hdone, hfirst, Bool.or_self, if_neg Bool.false_ne_true,
      unsub, hset]
    simp only [setObj, sendCommand, List.set_set, Link.deferreds_sendCommand]
    rfl
  obtain ⟨hmem, vs, hfed, -⟩ := (hi.feeds o s hs).resolve_left hgoing
  rw [heq]
  refine ⟨rfl, { s with draining := true, max := none },
    ⟨?_, hmem, rfl, rfl, fun x hx hxo => ?_, fun _ => ?_⟩, rfl, rfl⟩
  · exact setObj_self (h := h.sendCommand (.unsub s.sid none)) hs
  · rcases List.mem_append.1 hx with hold | hnew
    · -- who waits for another drain drains
      obtain ⟨x', hx', hdraining⟩ := hi.draining x hold
      rw [hxo, hs, Option.some.injEq] at hx'
      rw [← hx', hfirst] at hdraining
      cases hdraining
    · rw [List.mem_singleton.1 hnew]
  · exact ⟨vs, hfed, fun _ => List.nil_suffix⟩

/-- The iterator of subscription `o` was given the messages of the log, and nothing stops it in
front of their end. -/
def Given (h : ProtocolHandler μ E) (o : Nat) (log : List μ) : Prop :=
  ∃ s vs, h.objs[o]? = some s ∧ s.noIterator = false ∧ log <:+ vs ∧ s.iter.Headed vs

end ProtocolHandler

namespace Session

variable {s s' : Session μ E} {e : Event μ E} {sid d o : Nat}

/-- The event leaves the iterator of subscription `o` to its consumer. -/
def Event.Keeps (o : Nat) : Event μ E → Prop
  | .client e => e.Keeps o
  | .receive _ | .take | .deliver _ _ => True

/-- Nobody unsubscribes subscription `o` or moves it to another subject, nor does a callback. -/
def Event.Retains (o : Nat) : Event μ E → Prop
  | .client e => ∀ c ∈ e.calls, c.Within (· ≠ o)
  | .receive cs => ∀ c ∈ cs, c.Within (· ≠ o)
  | .take | .deliver _ _ => True

/-- The transport takes frames. -/
def Open (s : Session μ E) : Prop := s.client.link.transport.done = false

instance (s : Session μ E) : Decidable s.Open := inferInstanceAs (Decidable (_ = _))

/-- What the iterator was given stays first. -/
theorem given_step {log : List μ} (hkeeps : e.Keeps o) (hstep : s.step e = some s')
    (hg : s.client.Given o log) : s'.client.Given o log := by
  obtain ⟨sub, vs, hsub, hkind, hlog, hhead⟩ := hg
  cases step_of_eq hstep with
  | dial link =>
      have hclient := ProtocolHandler.step_prepare link
      obtain ⟨sub', hsub', hkind', hhead'⟩ :=
        ProtocolHandler.headed_step (e := .link .prepare) (fun h => by cases h) trivial hclient
          hsub hkind hhead
      exact ⟨sub', vs, hsub', hkind', hlog, hhead'⟩
  | client frame prepare step =>
      obtain ⟨sub', hsub', hkind', hhead'⟩ :=
        ProtocolHandler.headed_step frame hkeeps step hsub hkind hhead
      exact ⟨sub', vs, hsub', hkind', hlog, hhead'⟩
  | message read =>
      obtain ⟨sub', hsub', hkind', hhead'⟩ :=
        ProtocolHandler.headed_processMsg _ _ _ hsub hkind hhead
      exact ⟨sub', vs, hsub', hkind', hlog, hhead'⟩
  | pong read => exact ⟨sub, vs, hsub, hkind, hlog, hhead⟩
  | take sent => exact ⟨sub, vs, hsub, hkind, hlog, hhead⟩
  | deliver interest => exact ⟨sub, vs, hsub, hkind, hlog, hhead⟩

/-- While the connection is up, the link moves without a dial, or a PONG is read. -/
theorem runs_step (hw : s.Wired) (hup : s.client.link.connected = true)
    (hstep : s.step e = some s') :
    s.client.link.Runs (fun _ => False) s'.client.link ∨
      s.client.link.step .pong = some s'.client.link ∧ s'.client.subs = s.client.subs ∧
        s'.dispatched = s.dispatched := by
  have hcontrolled := hw.link.controlled
  cases step_of_eq hstep with
  | dial link =>
      rw [hcontrolled.step_prepare hup] at link
      cases link
  | client frame prepare step =>
      have hdone := (ProtocolHandler.not_dial hcontrolled hup step).2
      exact .inl (ProtocolHandler.moves_event frame prepare hdone step).link
  | message read => exact .inl (ProtocolHandler.moves_processMsg _ _ _ _).link
  | pong read => exact .inr ⟨if_pos (hw.next read).1, rfl, rfl⟩
  | take sent => exact .inl (.refl _)
  | deliver interest => exact .inl (.refl _)

/-- **The connection stays up** until its transport is closed. -/
theorem up_step (hw : s.Wired) (hclosed : s.client.link.closed = false)
    (hup : s.client.link.connected = true) (hopen : s'.Open) (hstep : s.step e = some s') :
    s'.client.link.closed = false ∧ s'.client.link.connected = true := by
  rcases runs_step hw hup hstep with hruns | ⟨hpong, -, -⟩
  · rcases hruns.lasting hw.link.controlled (.inr ⟨hclosed, hup⟩) with hdone | hlasts
    · rw [hopen] at hdone
      cases hdone
    · exact hlasts
  · have hframe : ∀ l, s.client.link.Step .pong l → l.closed = false ∧ l.connected = true := by
      intro l hl
      cases hl with
      | pong =>
          rw [Link.processPong]
          split <;> exact ⟨hclosed, hup⟩
    exact hframe _ (Link.step_of_eq hpong)

/-- A sid without an entry and with nothing in flight is sent nothing, and nothing is dispatched for
it. -/
theorem logs_step (hup : s.client.link.connected = true) (hw : s.Wired)
    (hinterest : s.server.interest sid = none) (hflight : messagesFor sid s.inbound = [])
    (hstep : s.step e = some s') :
    s'.servedTo sid = s.servedTo sid ∧ s'.dispatchedTo sid = s.dispatchedTo sid := by
  cases step_of_eq hstep with
  | dial link =>
      rw [hw.link.controlled.step_prepare hup] at link
      cases link
  | client | pong | take => exact ⟨rfl, rfl⟩
  | message read =>
      rename_i n v cs inbound
      have hne : n ≠ sid := by
        rintro rfl
        rw [read, messagesFor, if_pos rfl] at hflight
        cases hflight
      refine ⟨rfl, ?_⟩
      rw [dispatchedTo, dispatchedTo]
      split
      · rw [loggedFor_concat, if_neg hne, List.append_nil]
      · rfl
  | deliver interest =>
      rename_i n v entry
      have hne : n ≠ sid := by
        rintro rfl
        rw [hinterest] at interest
        cases interest
      refine ⟨?_, rfl⟩
      rw [servedTo, loggedFor_concat, if_neg hne, List.append_nil]
      rfl

/-- Subscription `o`, under its sid, waits for the PONG of its drain; once that was read, everything
the server sent for it was dispatched. -/
structure Drains (s : Session μ E) (o sid d : Nat) (callback : Bool) : Prop where
  balanced : s.Balanced
  foreign : s.client.link.Foreign d
  handed : sid ≤ s.client.sidCounter
  not_closed : s.client.link.closed = false
  connected : s.client.link.connected = true
  unsubscribing : s.Unsubscribing sid d
  waits : s.client.link.outcome d = none →
    ∃ sub, s.client.Waits o d sub ∧ sub.sid = sid ∧ sub.noIterator = callback
  drained : s.client.link.outcome d ≠ none →
    s.servedTo sid = s.dispatchedTo sid ∧ (callback = false → s.client.Given o (s.servedTo sid))

/-- A subscription that waits is in the table, and was given what was dispatched. -/
theorem Drains.feeds {callback : Bool} (hd : s.Drains o sid d callback)
    (hpending : s.client.link.outcome d = none) :
    (sid, o) ∈ s.client.subs ∧ (callback = false → s.client.Given o (s.dispatchedTo sid)) := by
  obtain ⟨sub, hw, rfl, rfl⟩ := hd.waits hpending
  refine ⟨hw.mem, fun hkind => ?_⟩
  obtain ⟨-, vs, hfed, hvs⟩ :=
    (hd.balanced.tidy.feeds o sub hw.found).resolve_left (hw.gathers hkind).not_ended
  exact ⟨sub, vs, hw.found, hkind, hvs hkind, hfed.headed⟩

theorem counter_step (hb : s.Balanced) (hstep : s.step e = some s') :
    s.client.sidCounter ≤ s'.client.sidCounter := by
  cases step_of_eq hstep with
  | dial link =>
      have hclient := ProtocolHandler.step_prepare link
      exact (ProtocolHandler.table_step hb.keyed hclient).2.1
  | client frame prepare step => exact (ProtocolHandler.table_step hb.keyed step).2.1
  | message read =>
      rename_i n v cs inbound
      exact (ProtocolHandler.table_step (e := .message n v cs) hb.keyed rfl).2.1
  | pong | take | deliver => exact Nat.le_refl _

/-- **Every step** that leaves the subscription alone, on an open transport. -/
theorem drains_step {callback : Bool} (hd : s.Drains o sid d callback)
    (hkeeps : callback = false → e.Keeps o) (hretains : e.Retains o) (hopen : s'.Open)
    (hstep : s.step e = some s') : s'.Drains o sid d callback := by
  have hw := hd.balanced.wired
  have hbalanced := balanced_step hd.balanced hstep
  obtain ⟨hclosed, hup⟩ := up_step hw hd.not_closed hd.connected hopen hstep
  have htracked : s'.client.link.Tracked := ⟨hclosed, fun _ => hopen, .inl hup⟩
  have hunsubscribing :=
    unsubscribing_step hd.unsubscribing hw hd.foreign hd.handed hd.connected htracked hstep
  have hforeign : s'.client.link.Foreign d := by
    rcases runs_step hw hd.connected hstep with hruns | ⟨hpong, -, -⟩
    · exact hruns.foreign hd.foreign
    · exact Link.foreign_step hd.foreign hpong
  have hpending : s'.client.link.outcome d = none → s.client.link.outcome d = none := by
    intro hpending
    by_contra hsettled
    obtain ⟨r, hr⟩ := Option.ne_none_iff_exists'.1 hsettled
    have hkept : s'.client.link.outcome d = some r := by
      rcases runs_step hw hd.connected hstep with hruns | ⟨hpong, -, -⟩
      · exact hruns.outcome hr
      · exact Link.outcome_step hr hpong
    rw [hpending] at hkept
    cases hkept
  refine ⟨hbalanced, hforeign, ?_, hclosed, hup, hunsubscribing, fun hnone => ?_,
    fun hsettled => ?_⟩
  · exact Nat.le_trans hd.handed (counter_step hd.balanced hstep)
  · -- it waits on
    obtain ⟨sub, hwaits, hsid, hkind⟩ := hd.waits (hpending hnone)
    cases step_of_eq hstep with
    | dial link =>
        rw [hw.link.controlled.step_prepare hd.connected] at link
        cases link
    | client frame prepare step =>
        obtain ⟨sub', hwaits', hsid', hkind'⟩ :=
          hwaits.step hd.balanced.tidy.numbered frame (fun h => hkeeps (hkind ▸ h)) hretains
            (hpending hnone) hclosed step
        exact ⟨sub', hwaits', hsid'.trans hsid, hkind'.trans hkind⟩
    | message read =>
        obtain ⟨sub', hwaits', hsid', hkind'⟩ :=
          hwaits.processMsg hd.balanced.tidy.numbered hretains hclosed
        exact ⟨sub', hwaits', hsid'.trans hsid, hkind'.trans hkind⟩
    | pong read =>
        exact ⟨sub, hwaits.touches hd.balanced.tidy.numbered (ProtocolHandler.touches_link _ _),
          hsid, hkind⟩
    | take sent => exact ⟨sub, hwaits, hsid, hkind⟩
    | deliver interest => exact ⟨sub, hwaits, hsid, hkind⟩
  · by_cases hbefore : s.client.link.outcome d = none
    · -- the PONG is read, and nothing is in flight
      rcases runs_step hw hd.connected hstep with hruns | ⟨-, hsubs, hdispatched⟩
      · rw [hruns.outcome_eq hd.foreign] at hsettled
        exact absurd hbefore hsettled
      · obtain ⟨hmem, hgiven⟩ := hd.feeds hbefore
        have hbalance := hbalanced.balance (sid, o) (hsubs ▸ hmem)
        rw [(hunsubscribing.answered hsettled).2, List.append_nil] at hbalance
        refine ⟨hbalance, fun hkind => ?_⟩
        rw [hbalance, dispatchedTo, hdispatched]
        exact given_step (hkeeps hkind) hstep (hgiven hkind)
    · obtain ⟨heq, hgiven⟩ := hd.drained hbefore
      obtain ⟨hleft, hflight⟩ := hd.unsubscribing.answered hbefore
      obtain ⟨hserved, hdispatched⟩ := logs_step hd.connected hw hleft.interest hflight hstep
      rw [hserved, hdispatched]
      exact ⟨heq, fun hkind => given_step (hkeeps hkind) hstep (hgiven hkind)⟩

/-- **The drain begins.** -/
theorem drains_drain {sub : SubscriptionImpl μ E} (hb : s.Balanced)
    (hsub : s.client.objs[o]? = some sub) (hgoing : ¬ sub.Ended) (hfirst : sub.draining = false)
    (hclosed : s.client.link.closed = false) (hup : s.client.link.connected = true)
    (hopen : s'.Open) (hstep : s.step (.client (.call (.drain o))) = some s') :
    s'.Drains o sub.sid s.client.link.deferreds.created sub.noIterator := by
  have hw := hb.wired
  have hbalanced := balanced_step hb hstep
  obtain ⟨hclosed', hup'⟩ := up_step hw hclosed hup hopen hstep
  have hhanded : sub.sid ≤ s.client.sidCounter :=
    hb.tidy.numbered.le _ (List.mem_map_of_mem (List.mem_of_getElem? hsub))
  have hcounter := counter_step hb hstep
  obtain ⟨hlink, sub', hwaits, hsid, hkind⟩ :=
    ProtocolHandler.waits_drainSub hb.tidy hsub hgoing hfirst hclosed
  have htracked : s'.client.link.Tracked := ⟨hclosed', fun _ => hopen, .inl hup'⟩
  cases hstep
  have hlink : (s.client.call (.drain o)).link =
      (s.client.link.sendCommand (.unsub sub.sid none)).flush := hlink
  have hunsubscribing := unsubscribing_flush hw hlink htracked
  refine ⟨hbalanced, ?_, Nat.le_trans hhanded hcounter, hclosed', hup', hunsubscribing, fun _ => ?_,
    fun hne => ?_⟩
  · have howned :=
      (Link.evolves_sendCommand s.client.link (.unsub sub.sid none)).owned hw.link.owned
    have hforeign := Link.foreign_flush howned
    rw [Link.deferreds_sendCommand, ← hlink] at hforeign
    exact hforeign
  · exact ⟨sub', hwaits, hsid, hkind⟩
  · have hpending : (s.client.call (.drain o)).link.outcome s.client.link.deferreds.created =
        none := by
      rw [hlink, Link.outcome_flush, Link.outcome_sendCommand]
      exact s.client.link.deferreds.fresh _ (Nat.le_refl _)
    exact absurd hpending hne

/-- **Draining loses nothing.** A subscription that has not ended is drained while the connection is
up, and left alone until the PONG, on an open transport. What the server sends for it is dispatched
or in flight, and the subscription goes on, under its sid. When the PONG was read, nothing is in
flight or will be, and an iterator presents everything before it ends, and as far as its consumer
goes on. -/
theorem drain_loses_nothing {pendingLimit maxOut : Nat} {es es₁ : List (Event μ E)}
    {s s₁ s₂ : Session μ E} {sub : SubscriptionImpl μ E}
    (hrun : run step (new pendingLimit maxOut) es = some s) (hsub : s.client.objs[o]? = some sub)
    (hgoing : ¬ sub.Ended) (hfirst : sub.draining = false) (hclosed : s.client.link.closed = false)
    (hup : s.client.link.connected = true) (hdrain : s.step (.client (.call (.drain o))) = some s₁)
    (hrun₁ : run step s₁ es₁ = some s₂) (hretains : ∀ e ∈ es₁, e.Retains o)
    (hkeeps : sub.noIterator = false → ∀ e ∈ es₁, e.Keeps o) (hopen : Always step Open s₁ es₁) :
    s₂.servedTo sub.sid = s₂.dispatchedTo sub.sid ++ messagesFor sub.sid s₂.inbound ∧
      (s₂.client.link.outcome s.client.link.deferreds.created = none →
        s₂.client.get sub.sid = some o ∧
          (sub.noIterator = false → ∃ sub₂, s₂.client.objs[o]? = some sub₂ ∧ ¬ sub₂.Ended)) ∧
      (s₂.client.link.outcome s.client.link.deferreds.created ≠ none →
        s₂.servedTo sub.sid = s₂.dispatchedTo sub.sid ∧ messagesFor sub.sid s₂.inbound = [] ∧
          s₂.server.interest sub.sid = none ∧
          (sub.noIterator = false → ∀ es₂ s₃, run step s₂ es₂ = some s₃ → (∀ e ∈ es₂, e.Keeps o) →
            ∃ sub₃, s₃.client.objs[o]? = some sub₃ ∧ (sub₃.iter.done = true ∨ sub₃.next = none →
              s₂.servedTo sub.sid <:+: sub₃.iter.yielded))) := by
  have hb : s.Balanced := invariant_run (fun _ _ _ h hstep => balanced_step h hstep) hrun
    (balanced_new pendingLimit maxOut)
  have hstart := drains_drain hb hsub hgoing hfirst hclosed hup hopen.head hdrain
  have hok : ∀ e ∈ es₁, (sub.noIterator = false → e.Keeps o) ∧ e.Retains o :=
    fun e he => ⟨fun hkind => hkeeps hkind e he, hretains e he⟩
  have hd : s₂.Drains o sub.sid s.client.link.deferreds.created sub.noIterator := by
    refine invariant_run_of_always
      (I := fun s' => s'.Drains o sub.sid s.client.link.deferreds.created sub.noIterator) ?_
      hrun₁ hopen hok hstart
    rintro s e s' hd ⟨hkeeps, hretains⟩ hopen hstep
    exact drains_step hd hkeeps hretains hopen hstep
  refine ⟨?_, fun hpending => ?_, fun hsettled => ?_⟩
  · -- before the PONG is read the table has the subscription, behind it nothing is in flight
    by_cases hpending : s₂.client.link.outcome s.client.link.deferreds.created = none
    · exact hd.balanced.balance _ (hd.feeds hpending).1
    · rw [(hd.unsubscribing.answered hpending).2, List.append_nil]
      exact (hd.drained hpending).1
  · obtain ⟨sub₂, hwaits, -, hkind₂⟩ := hd.waits hpending
    refine ⟨ProtocolHandler.get_of_mem hd.balanced.keyed.nodup (hd.feeds hpending).1,
      fun hkind => ?_⟩
    exact ⟨sub₂, hwaits.found, (hwaits.gathers (hkind₂.trans hkind)).not_ended⟩
  · obtain ⟨hleft, hflight⟩ := hd.unsubscribing.answered hsettled
    refine ⟨(hd.drained hsettled).1, hflight, hleft.interest, fun hkind es₂ s₃ hrun₂ hkeeps₂ => ?_⟩
    have hb₃ : s₃.Balanced :=
      invariant_run (fun _ _ _ h hstep => balanced_step h hstep) hrun₂ hd.balanced
    -- the iterator keeps what it was given, whatever comes later
    have hgiven : s₃.client.Given o (s₂.servedTo sub.sid) := by
      refine invariant_run_of_forall (I := fun s => s.client.Given o (s₂.servedTo sub.sid)) ?_
        hrun₂ hkeeps₂ ((hd.drained hsettled).2 hkind)
      exact fun _ _ _ hg hkeeps hstep => given_step hkeeps hstep hg
    obtain ⟨sub₃, vs, hsub₃, -, hlog, hhead⟩ := hgiven
    refine ⟨sub₃, hsub₃, fun hend => ?_⟩
    have hyielded : vs <+: sub₃.iter.yielded := by
      rcases hend with hdone | hstuck
      · exact hhead.yielded_of_done hdone
      · exact hhead.yielded_of_stuck (hb₃.tidy.parked o sub₃ hsub₃)
          (SubscriptionImpl.next_eq_none hstuck)
    -- what it had been given before the drain is in front
    obtain ⟨front, rfl⟩ := hlog
    obtain ⟨back, hback⟩ := hyielded
    exact ⟨front, back, hback⟩

/-- A subscription to which a message is on its way. -/
def awaited (callback timeout : Bool) : List (Event Unit Unit) :=
  connecting ++
    [.client (.call (.subscribe ⟨"a", none, none, callback, timeout⟩)),
      .client (.link .flushTask), .take, .deliver 1 ()]

/-- The server reads the UNSUB and the PING, and the client the message and the PONG. -/
def answered : List (Event Unit Unit) := [.take, .take, .receive [], .receive []]

/-- One more message is sent before the UNSUB is read. -/
theorem drain_loses_nothing_answered :
    ∃ s s₁ s₂ : Session Unit Unit, run step (new 32768 2) (awaited false true) = some s ∧
      s.step (.client (.call (.drain 0))) = some s₁ ∧
      run step s₁ (.deliver 1 () :: answered ++ [.receive []]) = some s₂ ∧
      ∀ es₂ s₃, run step s₂ es₂ = some s₃ → (∀ e ∈ es₂, e.Keeps 0) →
        ∃ sub₃, s₃.client.objs[0]? = some sub₃ ∧
          (sub₃.iter.done = true ∨ sub₃.next = none → [(), ()] <:+: sub₃.iter.yielded) := by
  refine ⟨_, _, _, rfl, rfl, rfl, ?_⟩
  have hall :=
    drain_loses_nothing (o := 0) (rfl : run step (new 32768 2) (awaited false true) = some _) rfl
    (by unfold SubscriptionImpl.Ended; decide) rfl rfl rfl rfl
    (rfl : run step _ (.deliver 1 () :: answered ++ [.receive []]) = some _)
    (by simp [answered, Event.Retains]) (fun _ => by simp [answered, Event.Keeps]) (by decide)
  exact (hall.2.2 (by decide)).2.2.2 rfl

/-- Nothing is lost where the subscription is `ready` for the drain and the events until the PONG
are `allowed`. -/
def LosesNothing (ready : SubscriptionImpl Unit Unit → Prop)
    (allowed : Nat → Event Unit Unit → Prop) : Prop :=
  ∀ (es es₁ es₂ : List (Event Unit Unit)) (s s₁ s₂ s₃ : Session Unit Unit) (o : Nat)
    (sub sub₃ : SubscriptionImpl Unit Unit),
    run step (new 32768 2) es = some s → s.client.objs[o]? = some sub → sub.isClosed = false →
    sub.draining = false → s.client.link.closed = false → s.client.link.connected = true →
    ready sub → s.step (.client (.call (.drain o))) = some s₁ → run step s₁ es₁ = some s₂ →
    Always step Open s₁ es₁ → s₂.client.link.outcome s.client.link.deferreds.created ≠ none →
    (∀ e ∈ es₁, allowed o e) → run step s₂ es₂ = some s₃ → (∀ e ∈ es₂, e.Keeps o) →
    s₃.client.objs[o]? = some sub₃ →
    if sub.noIterator then s₂.servedTo sub.sid = s₂.dispatchedTo sub.sid
    else sub₃.iter.done = true ∨ sub₃.next = none → s₂.servedTo sub.sid <:+: sub₃.iter.yielded

/-- A message that is in flight is lost when the subscription was unsubscribed before the drain, is
unsubscribed or moved to another subject meanwhile, or its timer fires. -/
theorem not_drain_loses_nothing :
    ¬ LosesNothing (fun _ => True) (fun _ _ => True) ∧
      ¬ LosesNothing (fun _ => True) (fun o e => e.Keeps o ∧ e.Retains o) ∧
      ¬ LosesNothing (fun sub => ¬ sub.Ended)
        (fun o e => e.Keeps o ∧ ∀ subject, e ≠ .client (.call (.resub o subject))) ∧
      ¬ LosesNothing (fun sub => ¬ sub.Ended)
        (fun o e => e.Keeps o ∧ ∀ max, e ≠ .client (.call (.unsubscribe o max))) ∧
      ¬ LosesNothing (fun sub => ¬ sub.Ended) Event.Retains := by
  refine ⟨fun h => ?_, fun h => ?_, fun h => ?_, fun h => ?_, fun h => ?_⟩
  · have hall := h (awaited true false) (.client (.call (.unsubscribe 0 none)) :: answered)
      [] _ _ _ _ 0 _ _ rfl rfl rfl
      rfl rfl rfl trivial rfl rfl (by decide) (by decide) (fun _ _ => trivial) rfl (by simp) rfl
    revert hall
    decide
  · -- the close function is in front of the message
    have hall :=
      h (awaited false false ++ [.client (.call (.unsubscribe 0 none))]) (.take :: answered)
      [.client (.next 0)] _ _ _ _ 0 _ _ rfl rfl rfl rfl rfl rfl trivial rfl rfl
        (by decide) (by decide)
      (by simp [answered, Event.Keeps, Event.Retains]) rfl
        (by simp [Event.Keeps, ProtocolHandler.Event.Keeps]) rfl
    revert hall
    decide
  · have hall := h (awaited true false) (.client (.call (.unsubscribe 0 none)) :: answered)
      [] _ _ _ _ 0 _ _ rfl rfl rfl
      rfl rfl rfl (by unfold SubscriptionImpl.Ended; decide) rfl rfl (by decide) (by decide)
      (by simp [answered, Event.Keeps, ProtocolHandler.Event.Keeps]) rfl (by simp) rfl
    revert hall
    decide
  · have hall :=
      h (awaited true false) (.client (.call (.resub 0 "b")) :: answered)
        [] _ _ _ _ 0 _ _ rfl rfl rfl
      rfl rfl rfl (by unfold SubscriptionImpl.Ended; decide) rfl rfl (by decide) (by decide)
      (by simp [answered, Event.Keeps, ProtocolHandler.Event.Keeps]) rfl (by simp) rfl
    revert hall
    decide
  · have hall :=
      h (awaited false true) (.client (.timeout 0 () []) :: answered) [] _ _ _ _ 0 _ _ rfl rfl rfl
      rfl rfl rfl (by unfold SubscriptionImpl.Ended; decide) rfl rfl (by decide) (by decide)
      (by simp [answered, Event.Retains, ProtocolHandler.Event.calls]) rfl (by simp) rfl
    revert hall
    decide

end Session

end NatsClient.Connection
