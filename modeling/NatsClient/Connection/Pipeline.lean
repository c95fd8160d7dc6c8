import NatsClient.Connection.InterestAgreement
import NatsClient.Connection.Touches
import NatsClient.Connection.Transports

/-!
# The order of what is on its way

A client and its server, over all runs. The PINGs that were sent and not matched are those whose
PONGs are in flight, and behind them those that the server has not read (`Wired`). So a PONG that
the client reads is matched with the deferred of the PING it answers.

An UNSUB and a PING behind it are read in this order, and no SUB for the sid comes between or behind
(`Unsubscribing`). Once the PING is answered, no message for the sid is in flight behind the PONG,
and none is sent any more; once the PONG is read, none is in flight at all.
-/

set_option autoImplicit false

namespace NatsClient.Connection

open NatsClient.Foundation NatsClient.Iterator

variable {μ E : Type}

/-! ## What is in flight to the client -/

/-- The deferreds of the PONGs in flight. -/
def pongsOf : List (Inbound μ) → List Nat
  | [] => []
  | .pong d :: inbound => d :: pongsOf inbound
  | .msg _ _ :: inbound => pongsOf inbound

/-- The messages for a sid in flight. -/
def messagesFor (sid : Nat) : List (Inbound μ) → List μ
  | [] => []
  | .msg n v :: inbound => if n = sid then v :: messagesFor sid inbound else messagesFor sid inbound
  | .pong _ :: inbound => messagesFor sid inbound

@[simp] theorem pongsOf_append (xs ys : List (Inbound μ)) :
    pongsOf (xs ++ ys) = pongsOf xs ++ pongsOf ys := by
  induction xs with
  | nil => rfl
  | cons x xs ih => cases x <;> simp only [List.cons_append, pongsOf, ih]

@[simp] theorem messagesFor_append (sid : Nat) (xs ys : List (Inbound μ)) :
    messagesFor sid (xs ++ ys) = messagesFor sid xs ++ messagesFor sid ys := by
  induction xs with
  | nil => rfl
  | cons x xs ih =>
      cases x with
      | pong d => exact ih
      | msg n v =>
          simp only [List.cons_append, messagesFor, ih]
          split <;> rfl

theorem pongsOf_answer (f : Frame) : pongsOf (Server.answer f : List (Inbound μ)) = pings [f] := by
  cases f <;> rfl

theorem messagesFor_answer (sid : Nat) (f : Frame) :
    messagesFor sid (Server.answer f : List (Inbound μ)) = [] := by
  cases f <;> rfl

/-! ## The steps of the link without a dial -/

namespace Link

variable {l l' : Link} {d : Nat}

theorem Runs.evolves (hr : Runs (fun _ => False) l l') : Evolves l l' := by
  refine hr.invariant (I := Evolves l) ?_ (.refl l)
  intro s e s' hevolves he hstep
  rcases evolves_step hstep with ⟨rfl, -, -⟩ | ⟨rfl, -, -⟩ | hnext
  · exact absurd (he rfl) id
  · exact absurd (he rfl) id
  · exact hevolves.trans hnext

theorem Runs.inv {P : Event → Prop} (hr : Runs P l l') (hs : l.Inv) : l'.Inv :=
  hr.invariant (fun _ _ _ h _ hstep => inv_step h hstep) hs

/-- A flush is settled by nothing else. -/
theorem Runs.outcome_eq (hr : Runs (fun _ => False) l l') (hd : Foreign d l) :
    l'.outcome d = l.outcome d := by
  have hkept : Foreign d l' ∧ l'.outcome d = l.outcome d := by
    refine hr.invariant (I := fun s => Foreign d s ∧ s.outcome d = l.outcome d) ?_ ⟨hd, rfl⟩
    rintro s e s' ⟨hforeign, houtcome⟩ he hstep
    have hprepare : e ≠ .prepare := by
      rintro rfl
      exact he rfl
    have hpong : e ≠ .pong := by
      rintro rfl
      exact he rfl
    exact ⟨foreign_step hforeign hstep,
      (outcome_step_of_foreign hforeign hprepare hpong hstep).trans houtcome⟩
  exact hkept.2

/-- While the connection is up no dial runs. -/
theorem Controlled.idle (hs : l.Controlled) (hup : l.connected = true) : l.loop = .idle := by
  by_contra hne
  rw [hs.off hne] at hup
  cases hup

theorem Controlled.step_prepare (hs : l.Controlled) (hup : l.connected = true) :
    l.step .prepare = none := by
  rw [step, if_neg]
  rw [hs.idle hup]
  exact fun h => by cases h

theorem Controlled.step_dialDone (hs : l.Controlled) (hup : l.connected = true)
    (subs : List Command) : l.step (.dialDone subs) = none := by
  rw [step]
  split
  · rw [if_neg]
    rw [hs.idle hup]
    exact fun h => by cases h.1
  · rfl

/-- What is sent without a dial goes behind what is on its way. -/
theorem Runs.queues (hr : Runs (fun _ => False) l l') (hs : l.Controlled) :
    ∃ xs, Queues l l' xs := by
  have hboth : l'.Controlled ∧ ∃ xs, Queues l l' xs := by
    refine hr.invariant (I := fun s => s.Controlled ∧ ∃ xs, Queues l s xs) ?_ ⟨hs, [], .refl l⟩
    rintro s e s' ⟨hcontrolled, xs, hxs⟩ he hstep
    refine ⟨controlled_step hcontrolled hstep, ?_⟩
    cases hinternal : ProtocolHandler.isInternal e with
    | true =>
        have hne : e ≠ .prepare := by
          rintro rfl
          exact he rfl
        obtain ⟨ys, hys, -⟩ := queues_step hcontrolled hinternal hne hstep
        exact ⟨_, hxs.trans hys⟩
    | false =>
        cases e with
        | command c =>
            cases hstep
            exact ⟨_, hxs.trans (queues_sendCommand s c)⟩
        | flush =>
            cases hstep
            exact ⟨_, hxs.trans (queues_flush s)⟩
        | close =>
            cases hstep
            exact ⟨_, hxs.trans (queues_close s)⟩
        | dialDone subs => exact absurd rfl he
        | _ => cases hinternal
  exact hboth.2

/-- The SUBs for a sid among some frames. -/
theorem count_subSids (sid : Nat) (frames : List Frame) :
    (subSids frames).count sid = (frames.filter fun f => (subSids [f]).contains sid).length := by
  induction frames with
  | nil => rfl
  | cons f frames ih =>
      rw [← List.singleton_append, subSids_append, List.count_append, ih, List.filter_append,
        List.length_append]
      congr 1
      cases f with
      | command c =>
          cases c with
          | sub subject queue n =>
              by_cases hn : n = sid
              · subst hn
                simp [subSids]
              · simp [subSids, hn, Ne.symm hn]
          | unsub n max | pub proto payload => rfl
      | connect options | ping d | pong => rfl

/-- Where the SUBs on their way are those before and those of `ys`, the frames that are new have no
others. -/
theorem Queues.not_mem_subSids {xs : List Frame} {ys : List Nat} (hq : Queues l l' xs)
    (hc : Carries l l' ys) (ht : l'.Tracked) {sid : Nat} (hsid : sid ∉ ys) : sid ∉ subSids xs := by
  have hsubs : ∀ k : Link, k.subs = subSids (k.stream 0) := fun k => (subSids_append _ _).symm
  have hbuffered : l.Buffered fun f => (subSids [f]).contains sid :=
    ⟨fun _ => rfl, rfl, fun _ _ => rfl⟩
  have hstream := congrArg List.length (hq.stream ht 0 (Nat.zero_le _) _ hbuffered)
  have hcount := hc.subs.count_le sid
  rw [List.length_append, ← count_subSids, ← count_subSids, ← count_subSids, ← hsubs,
    ← hsubs] at hstream
  rw [List.count_append, List.count_eq_zero_of_not_mem hsid] at hcount
  exact List.count_eq_zero.1 (by omega)

end Link

/-! ## The events of the client -/

namespace ProtocolHandler

variable {h h' : ProtocolHandler μ E}

/-- An event that is neither a frame nor of a dial moves the link without a dial. -/
theorem moves_event {e : Event μ E} (hframe : ¬ Session.isFrame e = true)
    (hprepare : ¬ Session.isPrepare e = true) (hdone : e ≠ .dialDone) (hstep : h.step e = some h') :
    h.Moves (fun _ => False) h' := by
  refine (moves_step hstep).mono fun l hdials hdrives => ?_
  rcases hdrives with rfl | ⟨rfl, -⟩
  · cases l with
    | prepare => exact hprepare rfl
    | pong => exact hframe rfl
    | dialDone subs => cases hstep
    | _ => cases hdials
  · exact hdone rfl

/-- What is sent goes behind what is on its way, and subscribes new sids only. -/
theorem Moves.queues (hm : h.Moves (fun _ => False) h') (ha : Advances h h')
    (hc : h.link.Controlled) :
    ∃ xs, h.link.Queues h'.link xs ∧
      (h'.link.Tracked → ∀ sid ≤ h.sidCounter, sid ∉ subSids xs) := by
  obtain ⟨xs, hxs⟩ := hm.link.queues hc
  obtain ⟨ys, hys, -, hrange⟩ := ha.carries
  refine ⟨xs, hxs, fun ht sid hle => hxs.not_mem_subSids hys ht fun hmem => ?_⟩
  exact absurd (hrange sid hmem).1 (Nat.not_lt.2 hle)

/-- While the connection is up no dial starts and none ends. -/
theorem not_dial (hc : h.link.Controlled) (hup : h.link.connected = true) {e : Event μ E}
    (hstep : h.step e = some h') : e ≠ .link .prepare ∧ e ≠ .dialDone := by
  constructor
  · rintro rfl
    simp only [step, hc.step_prepare hup, Option.map_none, ite_self] at hstep
    cases hstep
  · rintro rfl
    simp only [step, hc.step_dialDone hup, Option.map_none, ite_self] at hstep
    cases hstep

end ProtocolHandler

namespace Session

variable {s s' : Session μ E} {e : Event μ E}

/-! ## The PONGs that are to come -/

/-- The PINGs that were sent and not matched: the PONGs of the first ones are in flight, and the
server has not read the others. -/
structure Wired (s : Session μ E) : Prop where
  link : s.client.link.Inv
  taken : s.server.taken ≤ s.client.link.transport.sent.length
  owed : (pings s.client.link.transport.sent).drop s.client.link.matched.length =
    pongsOf s.inbound ++ pings (s.client.link.transport.sent.drop s.server.taken)

theorem wired_new (pendingLimit maxOut : Nat) : (new pendingLimit maxOut : Session μ E).Wired :=
  ⟨Link.inv_new _ _, Nat.le_refl 0, rfl⟩

/-- The client sends more. -/
theorem Wired.evolves (hw : s.Wired) {client : ProtocolHandler μ E} {inbound : List (Inbound μ)}
    {served dispatched : List (Nat × μ)} (hlink : client.link.Inv)
    (he : s.client.link.Evolves client.link) (hinbound : pongsOf inbound = pongsOf s.inbound) :
    Wired ⟨client, s.server, inbound, served, dispatched⟩ := by
  obtain ⟨-, -, ⟨_, _, _, _, hpaired⟩, -⟩ := hw.link
  have hle := hpaired.matched_le
  obtain ⟨frames, hframes⟩ := he.sent
  refine ⟨hlink, ?_, ?_⟩
  · rw [← hframes, List.length_append]
    exact Nat.le_add_right_of_le hw.taken
  · rw [he.matched, ← hframes, pings_append, List.drop_append_of_le_length hle, hw.owed,
      List.drop_append_of_le_length hw.taken, pings_append, hinbound, List.append_assoc]

/-- The PONG that the client reads is that of the first PING that was not matched. -/
theorem Wired.next (hw : s.Wired) {d : Nat} {inbound : List (Inbound μ)}
    (hread : s.inbound = .pong d :: inbound) :
    s.client.link.matched.length < (pings s.client.link.transport.sent).length ∧
      s.client.link.pongs.head? = some d := by
  have howed := hw.owed
  rw [hread, pongsOf, List.cons_append] at howed
  have hget : (pings s.client.link.transport.sent)[s.client.link.matched.length]? = some d := by
    rw [← List.head?_drop, howed, List.head?_cons]
  have hlt := (List.getElem?_eq_some_iff.1 hget).1
  exact ⟨hlt, (hw.link.paired.processPong hlt).1.trans hget⟩

/-- **Every step.** -/
theorem wired_step (hw : s.Wired) (hstep : s.step e = some s') : s'.Wired := by
  cases step_of_eq hstep with
  | dial link =>
      have hinv := Link.inv_step hw.link link
      cases Link.step_of_eq link with
      | prepare =>
          -- a new connection has no frames and no answers
          exact ⟨by rw [ProtocolHandler.link_setLink]; exact hinv, Nat.zero_le _,
            by rw [ProtocolHandler.link_setLink]; rfl⟩
  | client frame prepare step =>
      rename_i e client
      -- a dial that ended writes the resubscriptions behind the first PONG
      by_cases hdone : e = .dialDone
      · subst hdone
        cases ProtocolHandler.step_of_eq step with
        | dialDone l _ hlink =>
            rcases Link.evolves_step hlink with ⟨heq, -, -⟩ | ⟨heq, -, -⟩ | hevolves
            · cases heq
            · cases heq
            · exact hw.evolves (Link.inv_step hw.link hlink) hevolves rfl
      · have hmoves := ProtocolHandler.moves_event frame prepare hdone step
        exact hw.evolves (hmoves.link.inv hw.link) hmoves.link.evolves rfl
  | message read =>
      rename_i sid v cs inbound
      have hmoves : s.client.Moves (fun _ => False) _ := s.client.moves_processMsg sid v cs
      refine hw.evolves (hmoves.link.inv hw.link) hmoves.link.evolves ?_
      rw [read, pongsOf]
  | pong read =>
      rename_i d cs inbound
      obtain ⟨hlt, -⟩ := hw.next read
      have howed := hw.owed
      obtain ⟨-, -, -, -, -, htransport⟩ := s.client.link.frame_processPong
      refine ⟨Link.inv_step (e := .pong) hw.link (if_pos hlt), ?_, ?_⟩
      · show s.server.taken ≤ s.client.link.processPong.transport.sent.length
        rw [htransport]
        exact hw.taken
      · show (pings s.client.link.processPong.transport.sent).drop
            s.client.link.processPong.matched.length =
          pongsOf inbound ++ pings (s.client.link.processPong.transport.sent.drop s.server.taken)
        rw [read, pongsOf, List.cons_append] at howed
        -- the PONG is read from the front, and one more PING is matched
        rw [htransport, Link.matched_processPong, List.length_append, List.length_singleton,
          ← List.tail_drop, howed, List.tail_cons]
  | take sent =>
      rename_i f
      obtain ⟨hlt, hget⟩ := List.getElem?_eq_some_iff.1 sent
      refine ⟨hw.link, hlt, ?_⟩
      -- the answer to the frame goes behind what was sent to the client before
      have howed := hw.owed
      rw [List.drop_eq_getElem_cons hlt, hget, ← List.singleton_append, pings_append] at howed
      show _ = pongsOf (s.inbound ++ Server.answer f) ++ _
      rw [pongsOf_append, pongsOf_answer, List.append_assoc]
      exact howed
  | deliver interest =>
      rename_i sid v entry
      refine ⟨hw.link, ?_, ?_⟩
      · show (s.server.deliver sid entry).taken ≤ _
        rw [s.server.taken_deliver]
        exact hw.taken
      · show _ = pongsOf (s.inbound ++ [.msg sid v]) ++
          pings (s.client.link.transport.sent.drop (s.server.deliver sid entry).taken)
        rw [s.server.taken_deliver, pongsOf_append, pongsOf, pongsOf, List.append_nil]
        exact hw.owed

/-! ## A sid that is given up -/

/-- The frames that are commands for the sid, and the PING of the deferred. -/
def marks (sid d : Nat) (f : Frame) : Bool := (onSid sid f).isSome || f = .ping d

/-- Those of them that the server has not read. -/
def unread (s : Session μ E) (sid d : Nat) : List Frame :=
  (s.client.link.stream s.server.taken).filter (marks sid d)

/-- **What a step sends** while the connection is up. -/
theorem queues_step (hw : s.Wired) (hup : s.client.link.connected = true)
    (hstep : s.step e = some s') :
    ∃ xs, s.client.link.Queues s'.client.link xs ∧
      (s'.client.link.Tracked → ∀ sid ≤ s.client.sidCounter, sid ∉ subSids xs) := by
  have hcontrolled := hw.link.controlled
  have hnothing : ∀ {l : Link}, s.client.link.Queues l [] → ∃ xs, s.client.link.Queues l xs ∧
      (l.Tracked → ∀ sid ≤ s.client.sidCounter, sid ∉ subSids xs) :=
    fun hq => ⟨[], hq, fun _ _ _ hmem => by cases hmem⟩
  cases step_of_eq hstep with
  | dial link =>
      rw [hcontrolled.step_prepare hup] at link
      cases link
  | client frame prepare step =>
      rename_i e client
      obtain ⟨hprepare, hdone⟩ := ProtocolHandler.not_dial hcontrolled hup step
      have hmoves := ProtocolHandler.moves_event frame prepare hdone step
      exact hmoves.queues (ProtocolHandler.advances_step hcontrolled hprepare hdone step)
        hcontrolled
  | message read =>
      rename_i sid v cs inbound
      have hmoves : s.client.Moves (fun _ => False) _ := s.client.moves_processMsg sid v cs
      exact hmoves.queues (ProtocolHandler.advances_processMsg s.client sid v cs) hcontrolled
  | pong read => exact hnothing (Link.queues_processPong _)
  | take sent => exact hnothing (.refl _)
  | deliver interest => exact hnothing (.refl _)

/-- An UNSUB for the sid is on its way to the server, with no SUB behind it, and the PING is behind
it. -/
structure Leaving (s : Session μ E) (sid d : Nat) : Prop where
  frames : ∃ before rest, s.unread sid d = before ++ .command (.unsub sid none) :: rest ∧
    .ping d ∉ before ∧ sid ∉ subSids rest
  unanswered : d ∉ pongsOf s.inbound

/-- The server has no entry for the sid, and sent no message for it behind the PONG. -/
structure Left (s : Session μ E) (sid d : Nat) : Prop where
  interest : s.server.interest sid = none
  subs : sid ∉ subSids (s.unread sid d)
  behind : ∀ after, .pong d :: after <:+ s.inbound → messagesFor sid after = []

variable {sid d : Nat}

theorem buffered_marks {l : Link} (hd : l.handshake ≠ some d) (sid : Nat) :
    l.Buffered (marks sid d) where
  connect _ := rfl
  pong := rfl
  handshake n hn := by
    have hne : n ≠ d := by
      rintro rfl
      exact hd hn
    simp [marks, onSid, hne]

/-- What is sent is read last. -/
theorem unread_queues {client : ProtocolHandler μ E} {xs : List Frame} {inbound : List (Inbound μ)}
    {served dispatched : List (Nat × μ)} (hw : s.Wired) (hd : s.client.link.handshake ≠ some d)
    (hq : s.client.link.Queues client.link xs) (ht : client.link.Tracked) :
    unread ⟨client, s.server, inbound, served, dispatched⟩ sid d = s.unread sid d ++ xs.filter
      (marks sid d) :=
  hq.stream ht _ hw.taken _ (buffered_marks hd sid)

theorem subSids_filter {sid : Nat} {xs : List Frame} (p : Frame → Bool) (hxs : sid ∉ subSids xs) :
    sid ∉ subSids (xs.filter p) := by
  intro hmem
  obtain ⟨subject, queue, hmem⟩ := mem_subSids.1 hmem
  exact hxs (mem_subSids.2 ⟨subject, queue, List.mem_of_mem_filter hmem⟩)

/-- The client sends more; what it reads of what is in flight is a suffix. -/
theorem Leaving.queues {client : ProtocolHandler μ E} {xs : List Frame} {inbound : List (Inbound μ)}
    {served dispatched : List (Nat × μ)} (hl : s.Leaving sid d) (hw : s.Wired)
    (hd : s.client.link.Foreign d) (hq : s.client.link.Queues client.link xs)
    (ht : client.link.Tracked) (hxs : sid ∉ subSids xs) (hread : inbound <:+ s.inbound) :
    Leaving ⟨client, s.server, inbound, served, dispatched⟩ sid d := by
  obtain ⟨⟨before, rest, hunread, hbefore, hrest⟩, hunanswered⟩ := hl
  refine ⟨⟨before, rest ++ xs.filter (marks sid d), ?_, hbefore, ?_⟩, ?_⟩
  · rw [unread_queues hw hd.not_handshake hq ht, hunread, List.append_assoc, List.cons_append]
  · rw [subSids_append, List.mem_append, not_or]
    exact ⟨hrest, subSids_filter _ hxs⟩
  · obtain ⟨read, hread⟩ := hread
    rw [← hread, pongsOf_append, List.mem_append, not_or] at hunanswered
    exact hunanswered.2

theorem Left.queues {client : ProtocolHandler μ E} {xs : List Frame} {inbound : List (Inbound μ)}
    {served dispatched : List (Nat × μ)} (hl : s.Left sid d) (hw : s.Wired)
    (hd : s.client.link.Foreign d) (hq : s.client.link.Queues client.link xs)
    (ht : client.link.Tracked) (hxs : sid ∉ subSids xs) (hread : inbound <:+ s.inbound) :
    Left ⟨client, s.server, inbound, served, dispatched⟩ sid d := by
  refine ⟨hl.interest, ?_, fun after hafter => hl.behind after (hafter.trans hread)⟩
  rw [unread_queues hw hd.not_handshake hq ht, subSids_append, List.mem_append, not_or]
  exact ⟨hl.subs, subSids_filter _ hxs⟩

/-- What comes behind the PONG at the end has no message for the sid either. -/
theorem behind_append {xs ys : List (Inbound μ)} (hys : messagesFor sid ys = [])
    (hxs : ∀ after, .pong d :: after <:+ xs → messagesFor sid after = []) :
    ∀ after, .pong d :: after <:+ xs ++ ys → messagesFor sid after = [] := by
  induction xs with
  | nil =>
      rintro after ⟨before, rfl⟩
      rw [messagesFor_append] at hys
      exact (List.append_eq_nil_iff.1 hys).2
  | cons x xs ih =>
      intro after hafter
      rw [List.cons_append, List.suffix_cons_iff] at hafter
      rcases hafter with heq | hafter
      · obtain ⟨rfl, rfl⟩ := List.cons.inj heq
        rw [messagesFor_append, hxs xs (List.suffix_refl _), hys, List.nil_append]
      · exact ih (fun after h => hxs after (h.trans (List.suffix_cons x xs))) after hafter

/-- The server reads the frame that was first. -/
theorem unread_take {f : Frame} (hsent : s.client.link.transport.sent[s.server.taken]? = some f)
    (inbound : List (Inbound μ)) (served dispatched : List (Nat × μ)) :
    s.unread sid d = [f].filter (marks sid d) ++
      unread ⟨s.client, { s.server.read f with taken := s.server.taken + 1 }, inbound, served,
        dispatched⟩ sid d := by
  obtain ⟨hlt, hget⟩ := List.getElem?_eq_some_iff.1 hsent
  rw [unread, Link.stream, List.drop_eq_getElem_cons hlt, hget, ← List.singleton_append,
    List.append_assoc, List.filter_append]
  rfl

theorem eq_of_onSid_sub {f : Frame} {subject : String} {queue : Option String}
    (h : onSid sid f = some (.sub subject queue)) : f = .command (.sub subject queue sid) := by
  cases f with
  | connect options | ping n | pong => cases h
  | command c =>
      cases c with
      | pub proto payload => cases h
      | unsub n max =>
          obtain ⟨-, heq⟩ := Option.ite_none_right_eq_some.1 h
          cases heq
      | sub subject' queue' n =>
          obtain ⟨rfl, heq⟩ := Option.ite_none_right_eq_some.1 h
          cases heq
          rfl

/-- **The server reads a frame**, which may be the UNSUB. -/
theorem Leaving.take {f : Frame} (hl : s.Leaving sid d)
    (hsent : s.client.link.transport.sent[s.server.taken]? = some f)
    {served dispatched : List (Nat × μ)} :
    Leaving ⟨s.client, { s.server.read f with taken := s.server.taken + 1 },
      s.inbound ++ Server.answer f,
        served, dispatched⟩ sid d ∨
      Left ⟨s.client, { s.server.read f with taken := s.server.taken + 1 },
        s.inbound ++ Server.answer f, served, dispatched⟩ sid d := by
  obtain ⟨⟨before, rest, hunread, hbefore, hrest⟩, hunanswered⟩ := hl
  rw [unread_take hsent (s.inbound ++ Server.answer f) served dispatched] at hunread
  -- only the PING of the deferred is answered by its PONG
  have hanswer : f ≠ .ping d → d ∉ pongsOf (s.inbound ++ Server.answer f) := by
    intro hne hmem
    rw [pongsOf_append, pongsOf_answer] at hmem
    rcases List.mem_append.1 hmem with hmem | hmem
    · exact hunanswered hmem
    · exact hne (List.mem_singleton.1 (mem_pings.1 hmem)).symm
  cases hmarks : marks sid d f with
  | false =>
      rw [List.filter_singleton, hmarks] at hunread
      refine .inl ⟨⟨before, rest, hunread, hbefore, hrest⟩, hanswer ?_⟩
      rintro rfl
      simp [marks] at hmarks
  | true =>
      rw [List.filter_singleton, hmarks, cond_true, List.singleton_append] at hunread
      cases before with
      | cons b before =>
          rw [List.cons_append, List.cons.injEq] at hunread
          obtain ⟨rfl, hunread⟩ := hunread
          refine .inl
            ⟨⟨before, rest, hunread, fun hmem => hbefore (List.mem_cons_of_mem _ hmem), hrest⟩,
              hanswer ?_⟩
          rintro rfl
          exact hbefore List.mem_cons_self
      | nil =>
          rw [List.nil_append, List.cons.injEq] at hunread
          obtain ⟨rfl, hunread⟩ := hunread
          refine .inr ⟨?_, ?_, fun after hafter => ?_⟩
          · show (s.server.read (.command (.unsub sid none))).interest sid = none
            rw [Server.interest_read, onSid, if_pos rfl]
            rfl
          · rw [hunread]
            exact hrest
          · -- the PONG is not in flight
            have hnot := hanswer (fun heq => by cases heq)
            obtain ⟨front, hfront⟩ := hafter
            have hfront : front ++ .pong d :: after = s.inbound ++ Server.answer
                (.command (.unsub sid none)) := hfront
            rw [← hfront, pongsOf_append, pongsOf] at hnot
            exact absurd (List.mem_append_right _ List.mem_cons_self) hnot

theorem Left.take {f : Frame} (hl : s.Left sid d)
    (hsent : s.client.link.transport.sent[s.server.taken]? = some f)
    {served dispatched : List (Nat × μ)} :
    Left ⟨s.client, { s.server.read f with taken := s.server.taken + 1 },
      s.inbound ++ Server.answer f, served, dispatched⟩ sid d := by
  have hsubs := hl.subs
  rw [unread_take hsent (s.inbound ++ Server.answer f) served dispatched, subSids_append,
    List.mem_append, not_or] at hsubs
  refine ⟨?_, hsubs.2, behind_append (messagesFor_answer sid f) hl.behind⟩
  show (s.server.read f).interest sid = none
  rw [Server.interest_read, hl.interest]
  cases hcommand : onSid sid f with
  | none => rfl
  | some c =>
      cases c with
      | unsub max => cases max <;> rfl
      | sub subject queue =>
          apply absurd _ hsubs.1
          rw [List.filter_singleton, marks, hcommand]
          exact mem_subSids.2 ⟨subject, queue, List.mem_singleton.2 (eq_of_onSid_sub hcommand).symm⟩

/-- The server sends a message. -/
theorem Leaving.deliver {n : Nat} {v : μ} {entry : Interest} {served dispatched : List (Nat × μ)}
    (hl : s.Leaving sid d) :
    Leaving ⟨s.client, s.server.deliver n entry, s.inbound ++ [.msg n v], served,
      dispatched⟩ sid d := by
  refine ⟨?_, ?_⟩
  · rw [unread, s.server.taken_deliver]
    exact hl.frames
  · rw [pongsOf_append, pongsOf, pongsOf, List.append_nil]
    exact hl.unanswered

theorem Left.deliver {n : Nat} {v : μ} {entry : Interest} {served dispatched : List (Nat × μ)}
    (hl : s.Left sid d) (hentry : s.server.interest n = some entry) :
    Left ⟨s.client, s.server.deliver n entry, s.inbound ++ [.msg n v], served,
      dispatched⟩ sid d := by
  have hne : n ≠ sid := by
    rintro rfl
    rw [hl.interest] at hentry
    cases hentry
  refine ⟨?_, ?_, behind_append ?_ hl.behind⟩
  · rw [Server.interest_deliver _ _ _ _ hentry, if_neg (Ne.symm hne)]
    exact hl.interest
  · rw [unread, s.server.taken_deliver]
    exact hl.subs
  · rw [messagesFor, if_neg hne, messagesFor]

/-- The sid is given up: the server reads the UNSUB before the PING, and once the PONG was read
nothing is in flight for the sid. -/
structure Unsubscribing (s : Session μ E) (sid d : Nat) : Prop where
  phase : s.Leaving sid d ∨ s.Left sid d
  answered : s.client.link.outcome d ≠ none → s.Left sid d ∧ messagesFor sid s.inbound = []

theorem messagesFor_suffix {xs ys : List (Inbound μ)} (h : xs <:+ ys)
    (hys : messagesFor sid ys = []) : messagesFor sid xs = [] := by
  obtain ⟨front, rfl⟩ := h
  rw [messagesFor_append] at hys
  exact (List.append_eq_nil_iff.1 hys).2

/-- PINGs that are on their way, and PONGs, are of deferreds that there are. -/
theorem Wired.lt (hw : s.Wired) {n : Nat}
    (hn : .ping n ∈ s.client.link.stream s.server.taken ∨ n ∈ pongsOf s.inbound) :
    n < s.client.link.deferreds.created := by
  obtain ⟨howned, -, ⟨flushed, dropped, direct, owed, hpaired⟩, -⟩ := hw.link
  apply howned.pongs_lt
  rw [hpaired.pongs_eq, hw.owed]
  rcases hn with hping | hpong
  · rcases List.mem_append.1 hping with hsent | houtbound
    · exact List.mem_append_left _ (List.mem_append_right _ (mem_pings.2 hsent))
    · exact List.mem_append_right _ (List.mem_append_right _ (mem_pings.2 houtbound))
  · exact List.mem_append_left _ (List.mem_append_left _ hpong)

/-- **The UNSUB and the PING are sent** in this order, and the PING is a new one. -/
theorem unsubscribing_flush {client : ProtocolHandler μ E} (hw : s.Wired)
    (hlink : client.link = (s.client.link.sendCommand (.unsub sid none)).flush)
    (ht : client.link.Tracked) :
    ({ s with client := client } : Session μ E).Unsubscribing sid
      s.client.link.deferreds.created := by
  have hcreated : (s.client.link.sendCommand (.unsub sid none)).deferreds =
      s.client.link.deferreds :=
    Link.deferreds_sendCommand _ _
  have hq : s.client.link.Queues client.link
      [.command (.unsub sid none), .ping s.client.link.deferreds.created] := by
    have hflush := Link.queues_flush (s.client.link.sendCommand (.unsub sid none))
    rw [hcreated, ← hlink] at hflush
    exact (Link.queues_sendCommand _ _).trans hflush
  have hhandshake : s.client.link.handshake ≠ some s.client.link.deferreds.created :=
    fun heq => Nat.lt_irrefl _ (hw.link.owned.handshake_lt _ heq)
  refine ⟨.inl
    ⟨⟨s.unread sid s.client.link.deferreds.created, [.ping s.client.link.deferreds.created],
    ?_, fun hmem => ?_, ?_⟩, fun hmem => ?_⟩, fun hne => ?_⟩
  · rw [unread_queues hw hhandshake hq ht]
    congr 1
    simp [marks, onSid]
  · exact Nat.lt_irrefl _ (hw.lt (.inl (List.mem_of_mem_filter hmem)))
  · exact List.not_mem_nil
  · exact Nat.lt_irrefl _ (hw.lt (.inr hmem))
  · refine absurd ?_ hne
    show client.link.outcome _ = none
    rw [hlink, Link.outcome_flush, Link.outcome_sendCommand]
    exact s.client.link.deferreds.fresh _ (Nat.le_refl _)

/-- **Every step** of a connection that stays up. -/
theorem unsubscribing_step (hu : s.Unsubscribing sid d) (hw : s.Wired)
    (hd : s.client.link.Foreign d) (hsid : sid ≤ s.client.sidCounter)
    (hup : s.client.link.connected = true) (ht : s'.client.link.Tracked)
    (hstep : s.step e = some s') : s'.Unsubscribing sid d := by
  have hcontrolled := hw.link.controlled
  obtain ⟨hphase, hanswered⟩ := hu
  obtain ⟨xs, hq, hnew⟩ := queues_step hw hup hstep
  have hxs := hnew ht sid hsid
  cases step_of_eq hstep with
  | dial link =>
      rw [hcontrolled.step_prepare hup] at link
      cases link
  | client frame prepare step =>
      rename_i e client
      have hdone := (ProtocolHandler.not_dial hcontrolled hup step).2
      have houtcome := (ProtocolHandler.moves_event frame prepare hdone step).link.outcome_eq hd
      refine ⟨hphase.imp (fun h => ?_) fun h => ?_, fun hne => ?_⟩
      · exact h.queues hw hd hq ht hxs (List.suffix_refl _)
      · exact h.queues hw hd hq ht hxs (List.suffix_refl _)
      · obtain ⟨hleft, hnone⟩ := hanswered (houtcome ▸ hne)
        exact ⟨hleft.queues hw hd hq ht hxs (List.suffix_refl _), hnone⟩
  | message read =>
      rename_i n v cs inbound
      have houtcome := (s.client.moves_processMsg n v cs).link.outcome_eq hd
      have hsuffix : inbound <:+ s.inbound := read ▸ List.suffix_cons _ _
      refine ⟨hphase.imp (fun h => ?_) fun h => ?_, fun hne => ?_⟩
      · exact h.queues hw hd hq ht hxs hsuffix
      · exact h.queues hw hd hq ht hxs hsuffix
      · obtain ⟨hleft, hnone⟩ := hanswered (houtcome ▸ hne)
        exact ⟨hleft.queues hw hd hq ht hxs hsuffix, messagesFor_suffix hsuffix hnone⟩
  | pong read =>
      rename_i n cs inbound
      obtain ⟨-, hhead⟩ := hw.next read
      have hsuffix : inbound <:+ s.inbound := read ▸ List.suffix_cons _ _
      refine ⟨hphase.imp (fun h => ?_) fun h => ?_, fun hne => ?_⟩
      · exact h.queues hw hd hq ht hxs hsuffix
      · exact h.queues hw hd hq ht hxs hsuffix
      · have hne : s.client.link.processPong.outcome d ≠ none := hne
        rw [Link.outcome_processPong, hhead] at hne
        by_cases hpending : s.client.link.outcome d = none
        · -- the PONG is that of the PING
          have heq : n = d := by
            by_contra hother
            rw [if_neg fun h => hother (Option.some.inj h.1)] at hne
            exact hne hpending
          subst heq
          rcases hphase with hleaving | hleft
          · have hunanswered := hleaving.unanswered
            rw [read, pongsOf] at hunanswered
            exact absurd List.mem_cons_self hunanswered
          · exact ⟨hleft.queues hw hd hq ht hxs hsuffix,
              hleft.behind inbound (read ▸ List.suffix_refl _)⟩
        · obtain ⟨hleft, hnone⟩ := hanswered hpending
          exact ⟨hleft.queues hw hd hq ht hxs hsuffix, messagesFor_suffix hsuffix hnone⟩
  | take sent =>
      rename_i f
      refine ⟨hphase.elim (fun h => h.take sent) fun h => .inr (h.take sent), fun hne => ?_⟩
      obtain ⟨hleft, hnone⟩ := hanswered hne
      refine ⟨hleft.take sent, ?_⟩
      rw [messagesFor_append, hnone, messagesFor_answer, List.nil_append]
  | deliver interest =>
      rename_i n v entry
      refine ⟨hphase.imp (fun h => h.deliver) fun h => h.deliver interest, fun hne => ?_⟩
      obtain ⟨hleft, hnone⟩ := hanswered hne
      refine ⟨hleft.deliver interest, ?_⟩
      have hother : n ≠ sid := by
        rintro rfl
        rw [hleft.interest] at interest
        cases interest
      rw [messagesFor_append, hnone, messagesFor, if_neg hother, messagesFor, List.nil_append]

end Session

end NatsClient.Connection
