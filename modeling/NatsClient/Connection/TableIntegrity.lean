import NatsClient.Connection.Permissions

/-!
# The integrity of the subscription table

Over all runs of a connection with its requests and its permission errors: the table has every
subscription under its own sid and has none twice (`Intact`), the sids that are handed out increase
and none comes back (`HandsOut`), and a message for a sid that a resub or a cancel left behind
reaches no subscription (`Silent`).

A run is read as writes (`writes_run`), so that the rest is about writes. Moments within an event,
such as those between the calls of a callback, are reached by writes too.
-/

set_option autoImplicit false

namespace NatsClient.Connection

open NatsClient.Foundation NatsClient.Iterator NatsClient.Reconnect NatsClient.Wire

variable {μ E : Type}

namespace ProtocolHandler

/-- The writes of a connection at work. -/
abbrev Reaches (h : ProtocolHandler μ E) (sids : List Nat) (h' : ProtocolHandler μ E) : Prop :=
  Writes Scope.all h sids h'

/-- Every key of the table is the sid of the subscription under it, and neither a key nor a
subscription is there twice. -/
structure Intact (h : ProtocolHandler μ E) : Prop where
  key : ∀ sid o, (sid, o) ∈ h.subs → ∃ s, h.objs[o]? = some s ∧ s.sid = sid
  keys : (h.subs.map Prod.fst).Nodup
  subscriptions : (h.subs.map Prod.snd).Nodup

/-- From `h` to `h'` the sids `sids` are handed out, one after the other. Each is above those
before, and what is in the table or is the sid of an object was so in `h` or is handed out. -/
structure HandsOut (h : ProtocolHandler μ E) (sids : List Nat) (h' : ProtocolHandler μ E) :
    Prop where
  reaches : h.Reaches sids h'
  increasing : sids.Pairwise (· < ·)
  fresh : ∀ sid ∈ sids, (∀ s ∈ h.objs, s.sid < sid) ∧ h.sidCounter < sid ∧ sid ≤ h'.sidCounter
  objs : ∀ (o : Nat) (s' : SubscriptionImpl μ E), h'.objs[o]? = some s' →
    s'.sid ∈ sids ∨ ∃ s, h.objs[o]? = some s ∧ s'.sid = s.sid
  subs : ∀ x ∈ h'.subs, x.1 ∈ sids ∨ x ∈ h.subs

/-- From now on a message for the sid changes nothing: no subscription gets it. -/
def Silent (h : ProtocolHandler μ E) (sid : Nat) : Prop :=
  ∀ sids h', h.Reaches sids h' → ∀ v cs, h'.processMsg sid v cs = h'

variable {S : Scope} {h h' : ProtocolHandler μ E}
  {s s' : SubscriptionImpl μ E} {o sid : Nat} {sids : List Nat}

/-! ## The table -/

theorem Keyed.intact (hk : h.Keyed) : h.Intact where
  key := hk.mem
  keys := hk.nodup
  subscriptions := by
    rw [List.nodup_map_iff_inj_on hk.nodup.of_map]
    rintro ⟨sid, o⟩ hmem ⟨sid', o'⟩ hmem' heq
    have ho : o = o' := heq
    subst ho
    -- both keys are the sid of the one object
    obtain ⟨s, hs, hsid⟩ := hk.mem sid o hmem
    obtain ⟨s', hs', hsid'⟩ := hk.mem sid' o hmem'
    rw [hs, Option.some.injEq] at hs'
    rw [← hsid, ← hsid', hs']

/-! ## The sids of the objects -/

theorem map_sid_setObj (hs : h.objs[o]? = some s) (hsid : s'.sid = s.sid) :
    (h.setObj o s').objs.map (·.sid) = h.objs.map (·.sid) := by
  refine List.ext_getElem? fun i => ?_
  rw [List.getElem?_map, List.getElem?_map]
  cases Nat.decEq i o with
  | isTrue hi =>
      subst hi
      rw [setObj_self hs, hs, Option.map_some, Option.map_some, hsid]
  | isFalse hi => rw [setObj_ne hi]

/-- The sids of the objects are those before, or one of them is new. -/
theorem Write.map_sid (hw : Write S h sids h') :
    (sids = [] ∧ h'.objs.map (·.sid) = h.objs.map (·.sid)) ∨
      sids = [h.sidCounter + 1] ∧ (h'.objs.map (·.sid) = h.objs.map (·.sid) ++ [h.sidCounter + 1] ∨
        ∃ o, h'.objs.map (·.sid) = (h.objs.map (·.sid)).set o (h.sidCounter + 1)) := by
  cases hw with
  | other objs subs counter => exact Or.inl ⟨rfl, by rw [objs]⟩
  | change found kind sid received max => exact Or.inl ⟨rfl, map_sid_setObj found sid⟩
  | limit within found kind sid received max => exact Or.inl ⟨rfl, map_sid_setObj found sid⟩
  | receive within found => exact Or.inl ⟨rfl, map_sid_setObj found rfl⟩
  | release within found kind sid received => exact Or.inl ⟨rfl, map_sid_setObj found sid⟩
  | add sid received max =>
      refine Or.inr ⟨rfl, Or.inl ?_⟩
      show (h.objs ++ [_]).map _ = _
      rw [List.map_append, List.map_singleton, sid]
  | resub within found kind sid received max =>
      rename_i o s s'
      refine Or.inr ⟨rfl, Or.inr ⟨o, ?_⟩⟩
      show (h.objs.set _ _).map _ = _
      rw [List.map_set, sid]

/-- No two objects have one sid, and all sids were handed out. -/
structure Numbered (h : ProtocolHandler μ E) : Prop where
  nodup : (h.objs.map (·.sid)).Nodup
  le : ∀ sid ∈ h.objs.map (·.sid), sid ≤ h.sidCounter

theorem numbered_new (pendingLimit maxOut : Nat) :
    (new pendingLimit maxOut : ProtocolHandler μ E).Numbered where
  nodup := List.nodup_nil
  le _ hmem := by cases hmem

/-- Sids stay distinct where at most one subscription gets a new one, the next to be handed out. -/
theorem Numbered.of_map_sid (hn : h.Numbered) (hcounter : h.sidCounter ≤ h'.sidCounter)
    (hmap : h'.objs.map (·.sid) = h.objs.map (·.sid) ∨
      h.sidCounter + 1 ≤ h'.sidCounter ∧
        (h'.objs.map (·.sid) = h.objs.map (·.sid) ++ [h.sidCounter + 1] ∨
          ∃ o, h'.objs.map (·.sid) = (h.objs.map (·.sid)).set o (h.sidCounter + 1))) :
            h'.Numbered := by
  have hnew : h.sidCounter + 1 ∉ h.objs.map (·.sid) := fun hmem => Nat.lt_irrefl _ (hn.le _ hmem)
  rcases hmap with heq | ⟨hlast, heq | ⟨o, heq⟩⟩
  · constructor
    · rw [heq]
      exact hn.nodup
    · rw [heq]
      exact fun sid hmem => Nat.le_trans (hn.le sid hmem) hcounter
  · constructor
    · rw [heq, List.nodup_append]
      refine ⟨hn.nodup, List.nodup_singleton _, ?_⟩
      intro a ha b hb hab
      rw [List.mem_singleton.1 hb] at hab
      exact hnew (hab ▸ ha)
    · rw [heq]
      intro sid hmem
      rcases List.mem_append.1 hmem with hold | hmem
      · exact Nat.le_trans (hn.le sid hold) hcounter
      · exact List.mem_singleton.1 hmem ▸ hlast
  · constructor
    · rw [heq]
      exact hn.nodup.set hnew
    · rw [heq]
      intro sid hmem
      rcases List.mem_or_eq_of_mem_set hmem with hold | rfl
      · exact Nat.le_trans (hn.le sid hold) hcounter
      · exact hlast

theorem Numbered.setObj (hn : h.Numbered) (hs : h.objs[o]? = some s) (hsid : s'.sid = s.sid) :
    (h.setObj o s').Numbered :=
  hn.of_map_sid (Nat.le_refl _) (.inl (map_sid_setObj hs hsid))

theorem Write.numbered (hw : Write S h sids h') (hn : h.Numbered) : h'.Numbered := by
  refine hn.of_map_sid hw.sids_eq.1 ?_
  rcases hw.map_sid with ⟨-, heq⟩ | ⟨hsids, heq⟩
  · exact .inl heq
  · exact .inr ⟨(hw.writes.mem_sids.1 (hsids ▸ List.mem_singleton.2 rfl)).2, heq⟩

theorem Writes.numbered (hw : Writes S h sids h') (hn : h.Numbered) : h'.Numbered := by
  induction hw with
  | refl => exact hn
  | head write _ ih => exact ih (write.numbered hn)

theorem Numbered.eq_of_sid (hn : h.Numbered) {o' : Nat} (hs : h.objs[o]? = some s)
    (hs' : h.objs[o']? = some s') (hsid : s.sid = s'.sid) : o = o' := by
  have hlt : o < (h.objs.map (·.sid)).length := by
    rw [List.length_map]
    exact (List.getElem?_eq_some_iff.1 hs).1
  refine (List.getElem?_inj hlt hn.nodup).1 ?_
  rw [List.getElem?_map, List.getElem?_map, hs, hs', Option.map_some, Option.map_some, hsid]

/-- The sid of an object that is not in the table is not in the table. -/
theorem Numbered.not_mem (hn : h.Numbered) (hk : h.Keyed) (hs : h.objs[o]? = some s)
    (hout : ∀ sid, (sid, o) ∉ h.subs) : ∀ i, (s.sid, i) ∉ h.subs := by
  intro i hmem
  obtain ⟨x, hx, hsid⟩ := hk.mem s.sid i hmem
  exact hout s.sid (hn.eq_of_sid hs hx hsid.symm ▸ hmem)

theorem Write.objs (hw : Write S h sids h') {i : Nat} {x' : SubscriptionImpl μ E}
    (hx' : h'.objs[i]? = some x') : x'.sid ∈ sids ∨ ∃ x, h.objs[i]? = some x ∧ x'.sid = x.sid := by
  have hmap := List.getElem?_map (f := (·.sid)) (l := h'.objs) (i := i)
  rw [hx', Option.map_some] at hmap
  have hold : (h.objs.map (·.sid))[i]? = some x'.sid → ∃ x, h.objs[i]? = some x ∧
      x'.sid = x.sid := by
    intro hget
    rw [List.getElem?_map] at hget
    obtain ⟨x, hx, hsid⟩ := Option.map_eq_some_iff.1 hget
    exact ⟨x, hx, hsid.symm⟩
  rcases hw.map_sid with ⟨-, heq⟩ | ⟨hsids, heq⟩
  · rw [heq] at hmap
    exact Or.inr (hold hmap)
  · rw [hsids, List.mem_singleton]
    rcases heq with heq | ⟨o, heq⟩
    · rw [heq] at hmap
      by_cases hlt : i < (h.objs.map (·.sid)).length
      · rw [List.getElem?_append_left hlt] at hmap
        exact Or.inr (hold hmap)
      · rw [List.getElem?_append_right (Nat.le_of_not_lt hlt)] at hmap
        exact Or.inl (List.mem_singleton.1 (List.mem_of_getElem? hmap))
    · rw [heq, List.getElem?_set] at hmap
      by_cases hi : o = i
      · rw [if_pos hi] at hmap
        obtain ⟨-, hsid⟩ := Option.ite_none_right_eq_some.1 hmap
        exact Or.inl (Option.some.inj hsid).symm
      · rw [if_neg hi] at hmap
        exact Or.inr (hold hmap)

theorem Writes.objs (hw : Writes S h sids h') {i : Nat} {x' : SubscriptionImpl μ E}
    (hx' : h'.objs[i]? = some x') : x'.sid ∈ sids ∨ ∃ x, h.objs[i]? = some x ∧ x'.sid = x.sid := by
  induction hw with
  | refl => exact Or.inr ⟨x', hx', rfl⟩
  | head write _ ih =>
      rcases ih hx' with hlater | ⟨y, hy, hyx⟩
      · exact Or.inl (List.mem_append_right _ hlater)
      · rw [hyx]
        rcases write.objs hy with hnew | hold
        · exact Or.inl (List.mem_append_left _ hnew)
        · exact Or.inr hold

theorem Write.subs (hw : Write S h sids h') : ∀ x ∈ h'.subs, x.1 ∈ sids ∨ x ∈ h.subs := by
  intro x hx
  cases hw with
  | other objs subs counter => exact Or.inr (subs ▸ hx)
  | change | limit | receive => exact Or.inr hx
  | release => exact Or.inr (mem_delete.1 hx).1
  | add =>
      rcases List.mem_append.1 hx with hold | hnew
      · exact Or.inr hold
      · rw [List.mem_singleton.1 hnew]
        exact Or.inl List.mem_cons_self
  | resub =>
      rcases List.mem_append.1 hx with hold | hnew
      · exact Or.inr (mem_delete.1 hold).1
      · rw [List.mem_singleton.1 hnew]
        exact Or.inl List.mem_cons_self

theorem Writes.subs (hw : Writes S h sids h') : ∀ x ∈ h'.subs, x.1 ∈ sids ∨ x ∈ h.subs := by
  induction hw with
  | refl => exact fun x hx => Or.inr hx
  | head write _ ih =>
      intro x hx
      rcases ih x hx with hlater | hx
      · exact Or.inl (List.mem_append_right _ hlater)
      · rcases write.subs x hx with hnew | hold
        · exact Or.inl (List.mem_append_left _ hnew)
        · exact Or.inr hold

/-- **What writes hand out.** -/
theorem Writes.handsOut (hw : h.Reaches sids h') (hn : h.Numbered) : h.HandsOut sids h' where
  reaches := hw
  increasing := by
    rw [hw.sids_eq.2]
    exact List.pairwise_lt_range'
  fresh sid hmem := by
    obtain ⟨hlt, hle⟩ := hw.mem_sids.1 hmem
    refine ⟨fun s hs => ?_, hlt, hle⟩
    exact Nat.lt_of_le_of_lt (hn.le _ (List.mem_map_of_mem hs)) hlt
  objs _ _ hx := hw.objs hx
  subs := hw.subs

/-! ## Sids that are left behind -/

/-- A message for a sid that is not in the table changes nothing. -/
theorem processMsg_of_not_mem (hout : ∀ o, (sid, o) ∉ h.subs) (v : μ) (cs : List Call) :
    h.processMsg sid v cs = h := by
  rw [processMsg, get_eq_none hout]

/-- A sid that was handed out and has left the table does not come back. -/
theorem silent_of_not_mem (hle : sid ≤ h.sidCounter) (hout : ∀ o, (sid, o) ∉ h.subs) :
    h.Silent sid := by
  intro sids h' hw v cs
  refine processMsg_of_not_mem (fun o hmem => ?_) v cs
  rcases hw.subs _ hmem with hnew | hold
  · exact Nat.not_lt.2 hle (hw.mem_sids.1 hnew).1
  · exact hout o hold

theorem silent_cancel (hn : h.Numbered) (hs : h.objs[o]? = some s) :
    (h.cancel o s).Silent s.sid := by
  have hle : s.sid ≤ h.sidCounter := hn.le _ (List.mem_map_of_mem (List.mem_of_getElem? hs))
  exact silent_of_not_mem hle fun i hmem => (mem_delete.1 hmem).2 rfl

/-- On an open connection. -/
theorem silent_resub (hn : h.Numbered) (hs : h.objs[o]? = some s) (hopen : h.link.closed = false)
    (subject : String) : (h.resub o subject).Silent s.sid := by
  have hle : s.sid ≤ h.sidCounter := hn.le _ (List.mem_map_of_mem (List.mem_of_getElem? hs))
  have hsubs : (h.resub o subject).subs = delete h.subs s.sid ++ [(h.sidCounter + 1, o)] := by
    simp only [resub, hs, hopen, if_neg Bool.false_ne_true]
    rfl
  have hcounter : (h.resub o subject).sidCounter = h.sidCounter + 1 := by
    simp only [resub, hs, hopen, if_neg Bool.false_ne_true]
    rfl
  refine silent_of_not_mem (hcounter ▸ Nat.le_succ_of_le hle) fun i hmem => ?_
  rw [hsubs] at hmem
  rcases List.mem_append.1 hmem with hold | hnew
  · exact (mem_delete.1 hold).2 rfl
  · have heq : s.sid = h.sidCounter + 1 := (Prod.mk.inj (List.mem_singleton.1 hnew)).1
    omega

end ProtocolHandler

/-! ## Runs -/

namespace Connected

open ProtocolHandler

variable {raise : NatsError → Option PermissionContext → E} {c c' : Connected μ E}

/-- **A run** is a sequence of writes. -/
theorem reaches_run {es : List (ConnectedEvent μ E)} (hrun : run (step raise) c es = some c') :
    ∃ sids, c.handler.Reaches sids c'.handler := by
  induction es generalizing c with
  | nil =>
      cases hrun
      exact ⟨[], .refl _⟩
  | cons e es ih =>
      obtain ⟨c₁, hstep, hrest⟩ := run_cons_inv hrun
      obtain ⟨sids, hw⟩ := writes_step (covers_all c e) hstep
      obtain ⟨sids', hw'⟩ := ih hrest
      exact ⟨sids ++ sids', hw.trans hw'⟩

/-- **The table over all runs.** In every state a run leads to, and at every moment within a later
event, the table is intact, and a resub and a cancel silence the sid they leave behind. What a
further run hands out are sids above all before. -/
theorem table_integrity {pendingLimit maxOut : Nat} {es : List (ConnectedEvent μ E)}
    (hrun : run (step raise) (new pendingLimit maxOut) es = some c) :
    c.handler.Intact ∧
      (∀ es' c', run (step raise) c es' = some c' → ∃ sids, c.handler.HandsOut sids c'.handler) ∧
      ∀ sids h, c.handler.Reaches sids h → h.Intact ∧ (h.objs.map (·.sid)).Nodup ∧
        ∀ (o : Nat) s, h.objs[o]? = some s →
          (h.link.closed = false → ∀ subject, (h.resub o subject).Silent s.sid) ∧
          (h.cancel o s).Silent s.sid := by
  obtain ⟨sids, hw⟩ := reaches_run hrun
  have hk : c.handler.Keyed := hw.keyed (once_new pendingLimit maxOut).keyed
  have hn : c.handler.Numbered := hw.numbered (numbered_new pendingLimit maxOut)
  refine ⟨hk.intact, ?_, ?_⟩
  · intro es' c' hrun'
    obtain ⟨sids', hw'⟩ := reaches_run hrun'
    exact ⟨sids', hw'.handsOut hn⟩
  · intro sids' h hw'
    have hn' := hw'.numbered hn
    refine ⟨(hw'.keyed hk).intact, hn'.nodup, fun o s hs => ?_⟩
    exact ⟨fun hopen subject => silent_resub hn' hs hopen subject, silent_cancel hn' hs⟩

/-- A subscription that is made and moved. -/
theorem table_integrity_moved :
    ((ProtocolHandler.new 0 2 : ProtocolHandler Nat Unit).subscribe
        ⟨"a", none, none, true, false⟩).Intact ∧
      (((ProtocolHandler.new 0 2 : ProtocolHandler Nat Unit).subscribe
        ⟨"a", none, none, true, false⟩).resub 0 "b").Silent 1 := by
  have hrun : run (step fun _ _ => ()) (new 0 2 : Connected Nat Unit)
      [.handler (.call (.subscribe ⟨"a", none, none, true, false⟩))] =
      some { (new 0 2 : Connected Nat Unit) with
        handler := (ProtocolHandler.new 0 2).subscribe ⟨"a", none, none, true, false⟩ } := rfl
  have hall := table_integrity hrun
  exact ⟨hall.1, ((hall.2.2 [] _ (.refl _)).2.2 0 _ rfl).1 rfl "b"⟩

end Connected

end NatsClient.Connection
