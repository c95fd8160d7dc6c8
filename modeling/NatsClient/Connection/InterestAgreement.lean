import NatsClient.Connection.Interest

/-!
# Interest agreement

Over all runs of a client and its server: when the connection is up, everything written was read by
the server and every message read by the client, the interest table of the server has exactly the
subscriptions of the client's table that are not draining (`agreed_of_counted`).

The counts of the two sides start at different times: those of the client survive reconnects, those
of the server do not. So the limit of an `unsubscribe(max)` can be reached on one side only, and
then the tables differ for good (`not_agreed`). The condition `Counted` says that this does not
happen where the server reads the last limit of a sid, and that no draining subscription is moved.
-/

set_option autoImplicit false

namespace NatsClient.Connection

open NatsClient.Foundation NatsClient.Iterator

variable {μ E : Type}

namespace Server

/-- Reading a frame, seen from one sid. -/
theorem interest_read (sv : Server) (f : Frame) (i : Nat) :
    (sv.read f).interest i =
      match onSid i f with
      | some c => Interest.read (sv.interest i) (sv.delivered i) c
      | none => sv.interest i := by
  cases f with
  | connect options => rfl
  | ping d => rfl
  | pong => rfl
  | command c =>
      cases c with
      | pub proto payload => rfl
      | sub subject queue sid =>
          by_cases hi : sid = i
          · subst hi
            simp only [onSid, if_true]
            cases hentry : sv.interest sid with
            | none => simp [Server.read, hentry, setInterest, Interest.read]
            | some e => simp [Server.read, hentry, Interest.read]
          · simp only [onSid, if_neg hi]
            cases hentry : sv.interest sid with
            | none => simp [Server.read, hentry, setInterest, Ne.symm hi]
            | some e => simp [Server.read, hentry]
      | unsub sid max =>
          by_cases hi : sid = i
          · subst hi
            simp only [onSid, if_true]
            cases max with
            | none => simp [Server.read, setInterest, Interest.read]
            | some max =>
                cases hentry : sv.interest sid with
                | none => simp [Server.read, hentry, Interest.read]
                | some e =>
                    -- a limit that was reached removes the entry, another one is stored
                    by_cases hmax : max ≤ sv.delivered sid
                    · simp [Server.read, hentry, hmax, setInterest, Interest.read]
                    · simp [Server.read, hentry, hmax, setInterest, Interest.read]
          · simp only [onSid, if_neg hi]
            cases max with
            | none => simp [Server.read, setInterest, Ne.symm hi]
            | some max =>
                cases hentry : sv.interest sid with
                | none => simp [Server.read, hentry]
                | some e =>
                    by_cases hmax : max ≤ sv.delivered sid
                    · simp [Server.read, hentry, hmax, setInterest, Ne.symm hi]
                    · simp [Server.read, hentry, hmax, setInterest, Ne.symm hi]

theorem delivered_read (sv : Server) (f : Frame) : (sv.read f).delivered = sv.delivered := by
  unfold Server.read
  split <;> try rfl
  · split <;> rfl
  · split
    · rfl
    · split <;> rfl

/-- A delivery, seen from one sid. -/
theorem interest_deliver (sv : Server) (sid : Nat) (e : Interest) (i : Nat)
    (he : sv.interest sid = some e) :
    (sv.deliver sid e).interest i =
      if i = sid then e.deliver (sv.delivered sid + 1) else sv.interest i := by
  by_cases hi : i = sid
  · subst hi
    unfold Server.deliver Interest.deliver
    cases hlimit : e.limit with
    | none => simp [he]
    | some max =>
        by_cases hmax : max ≤ sv.delivered i + 1
        · simp [hmax, setInterest]
        · simp [hmax, he]
  · rw [if_neg hi]
    unfold Server.deliver
    cases hlimit : e.limit with
    | none => rfl
    | some max =>
        by_cases hmax : max ≤ sv.delivered sid + 1
        · simp [hmax, setInterest, hi]
        · simp [hmax]

theorem delivered_deliver (sv : Server) (sid : Nat) (e : Interest) (i : Nat) :
    (sv.deliver sid e).delivered i =
      if i = sid then sv.delivered sid + 1 else sv.delivered i := by
  unfold Server.deliver
  cases hlimit : e.limit with
  | none => rfl
  | some max =>
      by_cases hmax : max ≤ sv.delivered sid + 1
      · simp only [hmax, if_true]
        rfl
      · simp only [hmax, if_false]

theorem taken_deliver (sv : Server) (sid : Nat) (e : Interest) :
    (sv.deliver sid e).taken = sv.taken := by
  unfold Server.deliver
  cases hlimit : e.limit with
  | none => rfl
  | some max =>
      by_cases hmax : max ≤ sv.delivered sid + 1
      · simp only [hmax, if_true]
        rfl
      · simp only [hmax, if_false]

end Server

/-! ### What is in flight -/

/-- A message for the sid. -/
def Inbound.isMsg (sid : Nat) : Inbound μ → Bool
  | .msg n _ => n = sid
  | .pong _ => false

/-- The number of messages for the sid on their way to the client. -/
def inflight (inbound : List (Inbound μ)) (sid : Nat) : Nat := inbound.countP (Inbound.isMsg sid)

theorem inflight_answer (inbound : List (Inbound μ)) (f : Frame) :
    inflight (inbound ++ Server.answer f) = inflight inbound := by
  funext sid
  rw [inflight, inflight, List.countP_append]
  cases f <;> rfl

theorem inflight_msg (inbound : List (Inbound μ)) (sid : Nat) (v : μ) (i : Nat) :
    inflight (inbound ++ [.msg sid v]) i =
      if i = sid then inflight inbound sid + 1 else inflight inbound i := by
  rw [inflight, inflight, inflight, List.countP_append, List.countP_singleton]
  by_cases hi : i = sid
  · subst hi
    simp [Inbound.isMsg]
  · simp [Inbound.isMsg, hi, Ne.symm hi]

theorem inflight_cons (inbound : List (Inbound μ)) (sid : Nat) (v : μ) :
    inflight (.msg sid v :: inbound) sid = inflight inbound sid + 1 ∧
      ∀ i, i ≠ sid → inflight inbound i = inflight (.msg sid v :: inbound) i := by
  refine ⟨?_, fun i hi => ?_⟩
  · simp [inflight, Inbound.isMsg]
  · simp [inflight, Inbound.isMsg, Ne.symm hi]

theorem inflight_pong (inbound : List (Inbound μ)) (d : Nat) :
    inflight (.pong d :: inbound) = inflight inbound := by
  funext sid
  simp [inflight, Inbound.isMsg]

namespace ProtocolHandler

variable {h : ProtocolHandler μ E} {trusted : Nat → Prop} {sv : Server} {count : Nat → Nat}

/-! ### The server's steps -/

/-- The commands for a sid behind one more frame. -/
theorem pendingFrom_of_getElem? {l : Link} {n : Nat} {f : Frame}
    (hf : l.transport.sent[n]? = some f) (sid : Nat) :
    l.pendingFrom n sid = (onSid sid f).toList ++ l.pendingFrom (n + 1) sid := by
  obtain ⟨hlt, hget⟩ := List.getElem?_eq_some_iff.1 hf
  rw [Link.pendingFrom, Link.stream, List.drop_eq_getElem_cons hlt, hget, List.cons_append,
    List.filterMap_cons]
  cases onSid sid f <;> rfl

/-- The server may read the frame: a limit that is the last command on its way suits the counts. -/
def ReadOk (h : ProtocolHandler μ E) (sv : Server) (count : Nat → Nat) : Frame → Prop
  | .command (.unsub sid (some max)) =>
      h.link.pendingFrom (sv.taken + 1) sid = [] →
        Suits (h.wanted sid) (sv.interest sid) (sv.delivered sid) (count sid) max
  | _ => True

instance (h : ProtocolHandler μ E) (sv : Server) (count : Nat → Nat) :
    (f : Frame) → Decidable (h.ReadOk sv count f)
  | .command (.unsub _ (some _)) => inferInstanceAs (Decidable (_ → _))
  | .command (.unsub _ none) | .command (.sub _ _ _) | .command (.pub _ _) | .connect _ | .ping _
  | .pong => inferInstanceAs (Decidable True)

/-- **The server reads a frame**. -/
theorem Inv.read {f : Frame} (hi : h.Inv trusted sv count none)
    (hf : h.link.transport.sent[sv.taken]? = some f)
    (hok : ∀ sid, trusted sid → h.ReadOk sv count f) :
    h.Inv trusted { sv.read f with taken := sv.taken + 1 } count none := by
  refine ⟨hi.owned, hi.controlled, hi.table, fun ht => ?_⟩
  have a := hi.agreement ht
  have hpending := pendingFrom_of_getElem? hf
  have hlt : sv.taken < h.link.transport.sent.length := (List.getElem?_eq_some_iff.1 hf).1
  refine ⟨hlt, fun sid htrusted => ?_, fun sid hfresh => ?_, fun hdown sid => ?_, ?_⟩
  · have ha := a.agrees sid htrusted
    rw [hpending] at ha
    show Agrees _ (h.wanted sid) (h.link.pendingFrom (sv.taken + 1) sid) ((sv.read f).interest sid)
      ((sv.read f).delivered sid) (count sid)
    rw [sv.interest_read, sv.delivered_read]
    cases hc : onSid sid f with
    | none =>
        rw [hc] at ha
        exact ha
    | some c =>
        rw [hc] at ha
        -- the only command that can do harm is a limit that ends what is on its way
        have hsuits : h.link.pendingFrom (sv.taken + 1) sid = [] → ∀ max, c = .unsub (some max) →
            Suits (h.wanted sid) (sv.interest sid) (sv.delivered sid) (count sid) max := by
          rintro hnil max rfl
          have heq : f = .command (.unsub sid (some max)) := by
            cases f with
            | connect options | ping d | pong => cases hc
            | command c =>
                cases c with
                | pub proto payload => cases hc
                | sub subject queue n =>
                    simp only [onSid, Option.ite_none_right_eq_some, Option.some.injEq] at hc
                    cases hc.2
                | unsub n m =>
                    simp only [onSid, Option.ite_none_right_eq_some, Option.some.injEq] at hc
                    obtain ⟨rfl, heq⟩ := hc
                    cases heq
                    rfl
          subst heq
          exact hok sid htrusted hnil
        cases hw : h.wanted sid with
        | none =>
            rw [hw] at ha hsuits
            exact Dead.read ha hsuits
        | some w =>
            rw [hw] at ha hsuits
            exact Live.read ha hsuits
  · obtain ⟨hnil, hentry, hdelivered, hcount⟩ := a.fresh sid hfresh
    rw [hpending, List.append_eq_nil_iff, Option.toList_eq_nil_iff] at hnil
    refine ⟨hnil.2, ?_, ?_, hcount⟩
    · show (sv.read f).interest sid = none
      rw [sv.interest_read, hnil.1, hentry]
    · show (sv.read f).delivered sid = 0
      rw [sv.delivered_read, hdelivered]
  · obtain ⟨hentry, hdelivered, hcount, hsent⟩ := a.down hdown sid
    have hnone : onSid sid f = none := List.filterMap_eq_nil_iff.1 hsent f (List.mem_of_getElem? hf)
    refine ⟨?_, ?_, hcount, hsent⟩
    · show (sv.read f).interest sid = none
      rw [sv.interest_read, hnone, hentry]
    · show (sv.read f).delivered sid = 0
      rw [sv.delivered_read, hdelivered]
  · intro hdown o d s hmem hnone hs
    have hne := a.drains hdown o d s hmem hnone hs
    obtain ⟨-, -, -, hsent⟩ := a.down hdown s.sid
    have hf : onSid s.sid f = none := List.filterMap_eq_nil_iff.1 hsent f (List.mem_of_getElem? hf)
    rw [hpending, hf] at hne
    exact hne

/-- **The server sends a message**. -/
theorem Inv.deliver {sid : Nat} {e : Interest} {count' : Nat → Nat}
    (hi : h.Inv trusted sv count none) (he : sv.interest sid = some e)
    (hcount : ∀ i, count' i = if i = sid then count sid + 1 else count i) :
    h.Inv trusted (sv.deliver sid e) count' none := by
  refine ⟨hi.owned, hi.controlled, hi.table, fun ht => ?_⟩
  have a := hi.agreement ht
  have hother : ∀ i, i ≠ sid → (sv.deliver sid e).interest i = sv.interest i ∧
      (sv.deliver sid e).delivered i = sv.delivered i ∧ count' i = count i := by
    intro i hne
    rw [sv.interest_deliver sid e i he, sv.delivered_deliver, hcount, if_neg hne, if_neg hne,
      if_neg hne]
    exact ⟨rfl, rfl, rfl⟩
  have htaken := sv.taken_deliver sid e
  refine ⟨?_, fun i htrusted => ?_, fun i hfresh => ?_, fun hdown i => ?_, ?_⟩
  · rw [htaken]
    exact a.taken_le
  · have ha := a.agrees i htrusted
    rw [htaken]
    by_cases hne : i = sid
    · subst hne
      rw [sv.interest_deliver i e i he, sv.delivered_deliver, hcount, if_pos rfl, if_pos rfl,
        if_pos rfl]
      rw [he] at ha
      cases hw : h.wanted i with
      | none =>
          -- a subscription that the client does not want any more
          rw [hw] at ha
          exact Dead.deliver ha _
      | some w =>
          -- one that it wants: the message counts for its limit
          rw [hw] at ha
          exact Live.deliver ha
    · obtain ⟨hentry, hdelivered, hsame⟩ := hother i hne
      rw [hentry, hdelivered, hsame]
      exact ha
  · obtain ⟨hnil, hentry, hdelivered, hzero⟩ := a.fresh i hfresh
    by_cases hne : i = sid
    · subst hne
      -- a sid that was not given out has no entry
      rw [he] at hentry
      cases hentry
    · obtain ⟨hentry', hdelivered', hsame⟩ := hother i hne
      rw [htaken, hentry', hdelivered', hsame]
      exact ⟨hnil, hentry, hdelivered, hzero⟩
  · obtain ⟨hentry, -, -, -⟩ := a.down hdown sid
    -- and none has one while the connection is down
    rw [he] at hentry
    cases hentry
  · rw [htaken]
    exact a.drains

/-! ### The steps of the client -/

/-- `sendSubscriptions()` subscribes each sid of the table once, under the subject and the queue of
its object. -/
theorem filterMap_subCommands (t : h.Table none) (sid : Nat) :
    (h.subCommands.map Frame.command).filterMap (onSid sid) =
      ((h.find sid).map fun s => SidCommand.sub s.subject s.group).toList := by
  have hsubs : ∀ subs : List (Nat × Nat),
      (∀ n o, (n, o) ∈ subs → ∃ s, h.objs[o]? = some s ∧ s.sid = n) → (subs.map Prod.fst).Nodup →
      ((subs.filterMap fun x => (h.objs[x.2]?).map SubscriptionImpl.subCommand).map
        Frame.command).filterMap (onSid sid) =
      (((subs.lookup sid).bind fun o => h.objs[o]?).map fun s =>
        SidCommand.sub s.subject s.group).toList := by
    intro subs hmem hnodup
    induction subs with
    | nil => rfl
    | cons x subs ih =>
        obtain ⟨n, o⟩ := x
        obtain ⟨s, hs, hn⟩ := hmem n o List.mem_cons_self
        rw [List.map_cons, List.nodup_cons] at hnodup
        have hrest := ih (fun n o hin => hmem n o (List.mem_cons_of_mem _ hin)) hnodup.2
        have hhead : (((n, o) :: subs).filterMap fun x =>
            (h.objs[x.2]?).map SubscriptionImpl.subCommand) = s.subCommand ::
            subs.filterMap fun x => (h.objs[x.2]?).map SubscriptionImpl.subCommand := by
          rw [List.filterMap_cons, hs, Option.map_some]
        rw [hhead, List.map_cons, List.filterMap_cons, hrest]
        by_cases hsid : n = sid
        · -- no other entry has the sid
          have hnone : subs.lookup sid = none := by
            refine List.lookup_eq_none_iff.2 fun y hy => ?_
            rw [bne_iff_ne]
            intro heq
            have hin := List.mem_map_of_mem (f := Prod.fst) hy
            rw [← heq, ← hsid] at hin
            exact hnodup.1 hin
          simp only [SubscriptionImpl.subCommand, onSid, hn, hsid, if_true, hnone]
          rw [List.lookup_cons_self, Option.bind_some, hs]
          rfl
        · have hskip : List.lookup sid ((n, o) :: subs) = subs.lookup sid := by
            rw [List.lookup_cons, beq_eq_false_iff_ne.2 (Ne.symm hsid)]
          simp only [SubscriptionImpl.subCommand, onSid, hn, if_neg hsid, hskip]
  exact hsubs h.subs t.mem t.nodup

/-- **The dial is done**: each sid of the table is subscribed in front of what is in the buffer. -/
theorem Inv.dialDone {l : Link} (hi : h.Inv trusted sv count none)
    (hpending : ∀ x ∈ h.drains, h.link.outcome x.2 = none)
    (hstep : h.link.step (.dialDone h.subCommands) = some l) :
    ({ h with link := l } : ProtocolHandler μ E).Inv trusted sv count none := by
  have howned := Link.owned_step hi.owned hstep
  have hcontrolled := Link.controlled_step hi.controlled hstep
  cases Link.step_of_eq hstep with
  | dialDone _ _ _ hdialing =>
      have he := Link.evolves_dialDone h.link h.subCommands
      refine ⟨howned, hcontrolled, hi.table.congr rfl rfl rfl rfl he.created, fun ht => ?_⟩
      have hoff : h.link.connected = false := by
        refine hi.controlled.off ?_
        rw [hdialing]
        decide
      -- the SUBs go to the transport, then the buffer behind them
      have hq : Link.Queues
          ({ h.link with connected := true, connectError := false, loop := .idle }.send
            (h.subCommands.map .command)) (h.link.dialDone h.subCommands) [] :=
        (Link.queues_flushPending _).then (Link.queues_of_wire rfl)
      have ht₁ := (hq.tracked ht).1
      have hconnected : (h.link.dialDone h.subCommands).connected = true := (hq.tracked ht).2
      have hopen : ¬ h.link.transport.done = true := by
        have htakes : (h.link.transport.send (h.subCommands.map .command)).done = false :=
          ht₁.takes rfl
        rw [Transport.done_send] at htakes
        rw [htakes]
        decide
      have a := hi.agreement ⟨ht₁.not_closed, fun hon => (by rw [hoff] at hon; cases hon),
        Or.inr hdialing⟩
      have hsent : (h.link.transport.send (h.subCommands.map .command)).sent =
          h.link.transport.sent ++ h.subCommands.map .command := by
        rw [Transport.send_of_open hopen]
      have hbehind : ∀ sid, (h.link.dialDone h.subCommands).pendingFrom sv.taken sid =
          ((h.find sid).map fun s => SidCommand.sub s.subject s.group).toList ++
            h.link.pendingFrom sv.taken sid := by
        intro sid
        obtain ⟨-, -, -, hnone⟩ := a.down hoff sid
        have hdrop : (h.link.transport.sent.drop sv.taken).filterMap (onSid sid) = [] := by
          rw [List.filterMap_eq_nil_iff] at hnone ⊢
          exact fun f hf => hnone f (List.mem_of_mem_drop hf)
        have hle : sv.taken ≤ (h.link.transport.send (h.subCommands.map .command)).sent.length := by
          rw [hsent, List.length_append]
          exact Nat.le_trans a.taken_le (Nat.le_add_right _ _)
        rw [hq.pending ht sv.taken hle sid, List.filterMap_nil, List.append_nil]
        show ((h.link.transport.send (h.subCommands.map .command)).sent.drop sv.taken ++
          h.link.outbound).filterMap (onSid sid) = _
        rw [hsent, List.drop_append_of_le_length a.taken_le, List.filterMap_append,
          List.filterMap_append, hdrop, filterMap_subCommands hi.table, List.nil_append,
          Link.pendingFrom, Link.stream, List.filterMap_append, hdrop, List.nil_append]
      have hwanted : ∀ sid, ({ h with link := h.link.dialDone h.subCommands } :
          ProtocolHandler μ E).wanted sid = h.wanted sid := wanted_congr rfl rfl
      refine ⟨Nat.le_trans a.taken_le he.sent.length_le, fun sid htrusted => ?_, fun sid hlt => ?_,
        fun hdown => ?_, fun hdown => ?_⟩
      · obtain ⟨hentry, hdelivered, hcount, -⟩ := a.down hoff sid
        have ha := a.agrees sid htrusted
        rw [hoff, hentry, hdelivered, hcount] at ha
        rw [hwanted, hentry, hdelivered, hcount]
        show Agrees (h.link.dialDone h.subCommands).connected (h.wanted sid)
          ((h.link.dialDone h.subCommands).pendingFrom sv.taken sid) none 0 0
        rw [hconnected, hbehind]
        cases hfind : h.find sid with
        | none =>
            rw [wanted, hfind, Option.bind_none] at ha ⊢
            exact ha
        | some s =>
            by_cases hd : s.draining = true
            · rw [wanted, hfind, Option.bind_some, if_pos hd] at ha ⊢
              have hne : h.link.pendingFrom sv.taken sid ≠ [] := by
                obtain ⟨o, hget, hs⟩ := Option.bind_eq_some_iff.1 hfind
                have hmem := mem_of_get hget
                obtain ⟨d, hdrain⟩ := hi.table.draining sid o s hmem hs hd
                have hne := a.drains hoff o d s hdrain (hpending _ hdrain) hs
                rwa [← hi.table.sid_eq hs hmem] at hne
              exact Dead.connect ha hne _
            · rw [wanted, hfind, Option.bind_some, if_neg hd] at ha ⊢
              exact Live.connect (show Live false s.wanted _ none 0 0 from ha)
      · obtain ⟨hnil, hrest⟩ := a.fresh sid hlt
        refine ⟨?_, hrest⟩
        have hnone : h.find sid = none := by
          rw [find, get_eq_none (hi.table.not_mem_of_lt hlt)]
          rfl
        show (h.link.dialDone h.subCommands).pendingFrom sv.taken sid = []
        rw [hbehind, hnil, hnone]
        rfl
      · rw [show (h.link.dialDone h.subCommands).connected = false from hdown] at hconnected
        cases hconnected
      · rw [show (h.link.dialDone h.subCommands).connected = false from hdown] at hconnected
        cases hconnected

/-- **A dial starts**: the server knows nothing, and no drain waits any more. -/
theorem Inv.prepare {l : Link} (hi : h.Inv trusted sv count none)
    (hstep : h.link.step .prepare = some l) : (h.setLink l).Inv trusted .new (fun _ => 0) none := by
  have howned := Link.owned_step hi.owned hstep
  have hcontrolled := Link.controlled_step hi.controlled hstep
  cases Link.step_of_eq hstep with
  | prepare hbetween =>
      have hoff : h.link.connected = false := by
        refine hi.controlled.off ?_
        rw [hbetween]
        decide
      have hcreated : h.link.deferreds.created ≤ h.link.prepare.deferreds.created := by
        rw [Link.created_prepare]
        exact Nat.le_succ _
      have hsame : h.setLink { h.link.prepare with loop := .dialing } =
          { h with link := { h.link.prepare with loop := .dialing } } := setLink_of_closed rfl
      rw [hsame]
      refine ⟨howned, hcontrolled, hi.table.congr rfl rfl rfl rfl hcreated, fun _ => ?_⟩
      have hpending : ∀ sid, Link.pendingFrom { h.link.prepare with loop := .dialing } 0 sid = [] :=
        fun _ => rfl
      refine ⟨Nat.zero_le _, fun sid _ => ?_, fun sid _ => ⟨hpending sid, rfl, rfl, rfl⟩,
        fun _ sid => ⟨rfl, rfl, rfl, rfl⟩, fun _ o d s hmem hnone _ => ?_⟩
      · show Agrees h.link.connected _ [] none 0 0
        rw [hoff]
        exact agrees_prepare _
      · -- a drain that waited was rejected
        have hlt := (hi.table.drains o d hmem).1
        have hcase : h.link.prepare.outcome d = none := hnone
        rw [Link.outcome_prepare] at hcase
        by_cases hopen : d ∈ h.link.pongs ∧ d < h.link.deferreds.created ∧ h.link.outcome d = none
        · rw [if_pos hopen] at hcase
          cases hcase
        · rw [if_neg hopen] at hcase
          exact absurd ⟨hi.owned.pending_mem d hlt hcase, hlt, hcase⟩ hopen

/-- A PONG is no command. -/
theorem Inv.pong (hi : h.Inv trusted sv count none) :
    ({ h with link := h.link.processPong } : ProtocolHandler μ E).Inv trusted sv count none := by
  obtain ⟨hcreated, -⟩ := h.link.frame_processPong
  refine ⟨hi.owned.processPong, hi.controlled.processPong,
    hi.table.congr rfl rfl rfl rfl (Nat.le_of_eq hcreated.symm), fun ht => ?_⟩
  have hq := h.link.queues_processPong
  have a := hi.agreement (hq.tracked ht).1
  refine a.update hq ht (Nat.le_refl _) (fun _ _ => rfl) (fun sid htrusted => ?_) ?_
  · rw [List.filterMap_nil, List.append_nil]
    exact a.agrees sid htrusted
  · intro hdown o d s hmem hnone hs
    rw [List.filterMap_nil, List.append_nil]
    refine a.drains hdown o d s hmem ?_ hs
    have hcase : h.link.processPong.outcome d = none := hnone
    rw [Link.outcome_processPong] at hcase
    by_cases hopen : h.link.pongs.head? = some d ∧ d < h.link.deferreds.created ∧
        h.link.outcome d = none
    · exact hopen.2.2
    · rw [if_neg hopen] at hcase
      exact hcase

/-- The event is covered, with the calls a callback makes. -/
def EventOk (h : ProtocolHandler μ E) : Event μ E → Prop
  | .call c => h.CallOk c
  | .timeout o err cs => ∀ s ∈ h.objs[o]?, s.noIterator = true →
      (h.setObj o { s.stop (some err) with timer := false }).CallsOk cs
  | _ => True

instance (h : ProtocolHandler μ E) : (e : Event μ E) → Decidable (h.EventOk e)
  | .call c => inferInstanceAs (Decidable (h.CallOk c))
  | .timeout o _ _ => inferInstanceAs (Decidable (∀ s ∈ h.objs[o]?, _ → _))
  | .drained _ _ | .message _ _ _ | .next _ | .stop _ _ | .leave _ | .dialDone | .link _ =>
      inferInstanceAs (Decidable True)

/-- **The steps of the client** that are neither frames nor the start of a dial. -/
theorem Inv.event {h' : ProtocolHandler μ E} {e : Event μ E} (hi : h.Inv trusted sv count none)
    (hframe : ¬ Session.isFrame e = true) (hprepare : ¬ Session.isPrepare e = true)
    (hok : h.EventOk e) (hstep : h.step e = some h') : h'.Inv trusted sv count none := by
  cases step_of_eq hstep with
  | call c => exact hi.call hok
  | drained o d hmem => exact hi.drained hmem
  | message sid v cs => exact absurd rfl hframe
  | timeout o s err cs hs =>
      have hstop : (h.setObj o { s.stop (some err) with timer := false }).Inv trusted sv
        count none :=
        hi.setObj hs (SubscriptionImpl.registration_stop s (some err))
      unfold timeout
      by_cases hcallback : s.noIterator = true
      · simp only [if_pos hcallback]
        exact hstop.calls (hok s hs hcallback)
      · simp only [if_neg hcallback]
        exact hstop
  | next o s s' hs hnext => exact hi.setObj hs (SubscriptionImpl.registration_next hnext)
  | stop o s err hs => exact hi.setObj hs (SubscriptionImpl.registration_stop s err)
  | leave o s hs => exact hi.setObj hs (SubscriptionImpl.registration_leave s)
  | dialDone l hpending hlink => exact hi.dialDone hpending hlink
  | link e l hinternal hlink =>
      rcases Link.evolves_step hlink with ⟨rfl, -, -⟩ | ⟨rfl, -, -⟩ | he
      · exact absurd rfl hprepare
      · exact absurd rfl hframe
      · have hne : e ≠ .prepare := by
          rintro rfl
          exact hprepare rfl
        obtain ⟨xs, hq, hxs⟩ := Link.queues_step hi.controlled hinternal hne hlink
        refine hi.setLink hq (fun sid => ?_) he
        rw [List.filterMap_eq_nil_iff]
        intro f hf
        rw [hxs f hf]
        rfl

end ProtocolHandler

namespace Session

variable {s s' : Session μ E}

/-- The invariant of a session; `trusted` are the sids whose counts suit each other. -/
def Inv (s : Session μ E) (trusted : Nat → Prop) : Prop :=
  s.client.Inv trusted s.server (inflight s.inbound) none

/-- No draining subscription is moved to another subject. -/
def Covered (s : Session μ E) : Event μ E → Prop
  | .client e => s.client.EventOk e
  | .receive cs =>
      match s.inbound with
      | .msg sid _ :: _ => s.client.MsgOk sid cs
      | _ => True
  | .take | .deliver _ _ => True

instance (s : Session μ E) : (e : Event μ E) → Decidable (s.Covered e)
  | .client e => inferInstanceAs (Decidable (s.client.EventOk e))
  | .receive cs =>
      match h : s.inbound with
      | .msg sid v :: inbound =>
          decidable_of_iff (s.client.MsgOk sid cs) (by simp only [Covered, h])
      | .pong d :: inbound => isTrue (by simp only [Covered, h])
      | [] => isTrue (by simp only [Covered, h])
  | .take | .deliver _ _ => inferInstanceAs (Decidable True)

/-- Where the server reads the last limit of a sid, it suits the counts. -/
def Suited (s : Session μ E) : Event μ E → Prop
  | .take => ∀ f ∈ s.client.link.transport.sent[s.server.taken]?,
      s.client.ReadOk s.server (inflight s.inbound) f
  | .client _ | .receive _ | .deliver _ _ => True

instance (s : Session μ E) : (e : Event μ E) → Decidable (s.Suited e)
  | .take => inferInstanceAs (Decidable (∀ f ∈ s.client.link.transport.sent[s.server.taken]?, _))
  | .client _ | .receive _ | .deliver _ _ => inferInstanceAs (Decidable True)

/-- Both hold. -/
def Counted (s : Session μ E) (e : Event μ E) : Prop := s.Covered e ∧ s.Suited e

instance (s : Session μ E) (e : Event μ E) : Decidable (s.Counted e) :=
  inferInstanceAs (Decidable (_ ∧ _))

variable {trusted : Nat → Prop}

theorem inv_new (pendingLimit maxOut : Nat) :
    (new pendingLimit maxOut : Session μ E).Inv trusted := by
  refine ⟨Link.owned_new _ _, Link.controlled_new _ _, ⟨?_, ?_, ?_, ?_, ?_, ?_, ?_⟩, fun ht => ?_⟩
  · exact fun _ _ hmem => (by cases hmem)
  · exact List.nodup_nil
  · exact fun _ _ hs => (by cases hs)
  · exact fun _ _ _ _ hs => (by cases hs)
  · exact fun _ _ _ hmem => (by cases hmem)
  · exact fun _ _ hmem => (by cases hmem)
  · exact fun _ _ _ hmem => (by cases hmem)
  · -- nothing is tracked in front of the first dial
    rcases ht.runs with hon | hdialing
    · cases hon
    · cases hdialing

/-- **Every step preserves the invariant**; the counts matter where some are trusted. -/
theorem inv_step {e : Event μ E} (hi : s.Inv trusted) (hok : s.Covered e)
    (hsuited : ∀ sid, trusted sid → s.Suited e) (hstep : s.step e = some s') : s'.Inv trusted := by
  cases step_of_eq hstep with
  | dial link => exact hi.prepare link
  | client frame prepare step => exact hi.event frame prepare hok step
  | message read =>
      rename_i sid v cs inbound
      obtain ⟨hsid, hne⟩ := inflight_cons inbound sid v
      rw [Inv, read] at hi
      simp only [Covered, read] at hok
      exact hi.processMsg hsid hne hok
  | pong read =>
      rename_i d cs inbound
      rw [Inv, read, inflight_pong inbound d] at hi
      exact hi.pong
  | take sent =>
      rename_i f
      show ProtocolHandler.Inv _ trusted _ (inflight (s.inbound ++ Server.answer f)) none
      rw [inflight_answer]
      exact hi.read sent fun sid htrusted => hsuited sid htrusted f sent
  | deliver interest =>
      rename_i sid v entry
      exact hi.deliver interest (inflight_msg s.inbound sid v)

/-! ### When both sides have caught up -/

/-- The connection is up, the server read everything that was written, and the client processed
every message. -/
structure Settled (s : Session μ E) : Prop where
  not_closed : s.client.link.closed = false
  connected : s.client.link.connected = true
  not_done : s.client.link.transport.done = false
  written : s.client.link.outbound = []
  taken : s.server.taken = s.client.link.transport.sent.length
  processed : ∀ sid v, Inbound.msg sid v ∉ s.inbound

/-- The interest table of the server has exactly the subscriptions of the client's table that are
not draining, under their sids, subjects and queues. -/
def Agreed (s : Session μ E) : Prop :=
  ∀ sid subject queue,
    (∃ e, s.server.interest sid = some e ∧ e.subject = subject ∧ e.queue = queue) ↔
      ∃ (o : Nat) (sub : SubscriptionImpl μ E), (sid, o) ∈ s.client.subs ∧
        s.client.objs[o]? = some sub ∧ sub.sid = sid ∧ sub.draining = false ∧
        sub.subject = subject ∧ sub.group = queue

/-- Nothing is on its way, so the entries are those that are wanted. -/
theorem Inv.agreed (hi : s.Inv fun _ => True) (hs : s.Settled) : s.Agreed := by
  have a := hi.agreement ⟨hs.not_closed, fun _ => hs.not_done, Or.inl hs.connected⟩
  have hmatch : ∀ sid, (s.server.interest sid).map (fun e => (e.subject, e.queue)) =
      (s.client.wanted sid).map fun w => (w.subject, w.queue) := by
    intro sid
    have hpending : s.client.link.pendingFrom s.server.taken sid = [] := by
      rw [Link.pendingFrom, Link.stream, hs.taken, List.drop_length, hs.written]
      rfl
    have hcount : inflight s.inbound sid = 0 := by
      refine List.countP_eq_zero.2 fun x hx => ?_
      cases x with
      | msg n v => exact absurd hx (hs.processed n v)
      | pong d => exact Bool.false_ne_true
    have ha := a.agrees sid trivial
    rw [hs.connected, hpending, hcount] at ha
    refine ha.eq fun w hw => ?_
    obtain ⟨o, sub, hmem, hsub, -, hd, rfl⟩ := hi.table.mem_of_wanted hw
    have hne : (none : Option Nat) ≠ some o := by
      intro heq
      cases heq
    exact hi.table.bounded sid o sub hmem hne hsub hd
  intro sid subject queue
  constructor
  · rintro ⟨e, he, rfl, rfl⟩
    have hw := hmatch sid
    rw [he, Option.map_some] at hw
    obtain ⟨w, hwanted, hsame⟩ := Option.map_eq_some_iff.1 hw.symm
    obtain ⟨o, sub, hmem, hsub, hsid, hd, rfl⟩ := hi.table.mem_of_wanted hwanted
    exact ⟨o, sub, hmem, hsub, hsid, hd, (Prod.mk.inj hsame).1, (Prod.mk.inj hsame).2⟩
  · rintro ⟨o, sub, hmem, hsub, -, hd, rfl, rfl⟩
    have hw := hmatch sid
    rw [hi.table.wanted_of_mem hmem hsub, if_neg (Bool.eq_false_iff.1 hd), Option.map_some] at hw
    obtain ⟨e, he, hsame⟩ := Option.map_eq_some_iff.1 hw
    exact ⟨e, he, (Prod.mk.inj hsame).1, (Prod.mk.inj hsame).2⟩

/-- **Interest agreement**: in every run that suits the counts, whenever both sides have caught up
the server has exactly the interest of the client. -/
theorem agreed_of_counted (pendingLimit maxOut : Nat) (es : List (Event μ E)) (s : Session μ E)
    (hrun : run step (new pendingLimit maxOut) es = some s)
    (hok : Meets step Counted (new pendingLimit maxOut) es) (hs : s.Settled) : s.Agreed := by
  have hi : s.Inv fun _ => True :=
    invariant_run_of_meets (I := fun s => s.Inv fun _ => True)
      (fun _ _ _ hi hok hstep => inv_step hi hok.1 (fun _ _ => hok.2) hstep) hrun hok
      (inv_new pendingLimit maxOut)
  exact hi.agreed hs

/-- A dial, with the handshake that completes it. -/
def connecting : List (Event Unit Unit) :=
  [.client (.link .prepare), .client (.link (.info (some ""))), .take, .take, .receive [],
    .client .dialDone]

/-- A subscription receives a message, and its connection is replaced. -/
def redialed : List (Event Unit Unit) :=
  connecting ++
    [.client (.call (.subscribe ⟨"a", none, none, true, false⟩)), .client (.link .flushTask), .take,
      .deliver 1 (), .receive [], .client (.link .disconnect),
      .client (.link (.closedNotification true))] ++
    connecting ++ [.take]

/-- With `unsubscribe(2)` one more message is to come on either side. -/
theorem agreed_of_counted_redialed :
    ∃ s : Session Unit Unit,
      run step (new 32768 2) (redialed ++
        [.client (.call (.unsubscribe 0 (some 2))), .client (.link .flushTask), .take]) = some s ∧
      s.Agreed :=
  ⟨_, rfl, agreed_of_counted 32768 2 (redialed ++
      [.client (.call (.unsubscribe 0 (some 2))), .client (.link .flushTask), .take]) _ rfl
    (by decide) ⟨rfl, rfl, rfl, rfl, rfl, fun _ _ hmem => (by cases hmem)⟩⟩

/-- The limit of `unsubscribe(1)` is reached by the count of the client, which survived the
connection, and not by that of the server: the client forgets the sid, the server keeps it. -/
theorem not_agreed :
    ¬ ∀ (es : List (Event Unit Unit)) (s : Session Unit Unit),
      run step (new 32768 2) es = some s → s.Settled → s.Agreed := by
  intro h
  have hagreed := h (redialed ++
      [.client (.call (.unsubscribe 0 (some 1))), .client (.link .flushTask), .take])
    _ rfl ⟨rfl, rfl, rfl, rfl, rfl, fun _ _ hmem => (by cases hmem)⟩
  obtain ⟨o, sub, hmem, -⟩ := (hagreed 1 "a" none).1 ⟨_, rfl, rfl, rfl⟩
  cases hmem

end Session

end NatsClient.Connection
